import IncrementalBuild.Proofs.Publish
/-!
# Publishing a file is atomic

Where nobody else saves files, a file that is being published is all old until its last step and
all new from then on, whichever access fails. Apart from it and its temporary file nothing changes
but that missing directories above it are made, and a temporary file that was created is gone in
the end.

A file that has the name of the temporary file is emptied and filled. So all this is true only if
that file has no other name: a file with that name and another one is lost under both, and if the
other one is the path itself, the path shows half a file on the way.

## Main definitions

* `Publish.Leaves` — a host on which nothing has changed but at some places, and on which
  directories above a path may have been made.
* `Publish.Pending`, `Publish.Settled` — a host on which a file is still to come, and one on which
  it has come.
* `Publish.Filling`, `Publish.Renamed` — a host on which the temporary file of a path stands, and
  one on which it has moved.
* `Publish.Ready` — a tree on which a file can be published.
* `Publish.Alone` — a place that is no name of a file that has several.

## Main results

* `Publish.runAll_filling` — what the steps after the first leave, up to any of them.
* `Publish.publish_eq_ok_iff` — when publishing a file succeeds.
* `Publish.publish_under` — the names of other files have no say in it.
* `publish_atomic` — every state that publishing a file passes through, and the one it ends in.
-/

namespace IncrementalBuild

variable {h h' h'' h₁ h₂ : Host} {p : Path} {contents : Bytes} {places : List Location}

namespace Publish

/-! ### What has changed -/

/-- A host that comes after another one. Nothing has changed but at some places, and directories
above a path may have been made where nothing stood. -/
structure Leaves (p : Path) (places : List Location) (h h' : Host) : Prop where
  touches : h.Touches places h'
  made : ∀ loc, loc ∉ places → h'.files.at? loc ≠ h.files.at? loc →
    ∃ parent dir, p.parent? = some parent ∧ parent.Within dir ∧ loc = h.files.place dir

/-- A file is still to come: what stood at its path stands there, and only the temporary file is
not what it was. -/
structure Pending (p : Path) (h h' : Host) : Prop where
  leaves : Leaves p [h.files.place (temporary p)] h h'
  kept : ∀ old, h'.Holds p old ↔ h.Holds p old

/-- A file has come: its path shows it, and the temporary file is gone. -/
structure Settled (p : Path) (contents : Bytes) (h h' : Host) : Prop where
  leaves : Leaves p [h.files.place p, h.files.place (temporary p)] h h'
  shows : h'.Shows p contents
  gone : h'.files.at? (h.files.place (temporary p)) = none

namespace Leaves

/-- What is left outside of some places is left outside of more. -/
theorem mono {more : List Location} (hl : Leaves p places h h') (hmore : places ⊆ more) :
    Leaves p more h h' :=
  ⟨hl.touches.mono hmore, fun loc hloc => hl.made loc fun hmem => hloc (hmore hmem)⟩

/-- A host on which nothing was made. -/
theorem of_files_eq (hlater : h.Precedes h') (hfiles : h'.files = h.files) :
    Leaves p places h h' :=
  ⟨.of_files_eq hlater hfiles, fun loc _ hchanged => absurd (by rw [hfiles]) hchanged⟩

/-- Changes come one after the other. -/
theorem trans (hl : Leaves p places h h') (hl' : Leaves p places h' h'') :
    Leaves p places h h'' := by
  refine ⟨hl.touches.trans hl'.touches, fun loc hloc hchanged => ?_⟩
  by_cases hsame : h'.files.at? loc = h.files.at? loc
  · obtain ⟨parent, dir, hparent, hdir, hplace⟩ :=
      hl'.made loc hloc fun hat => hchanged (hat.trans hsame)
    exact ⟨parent, dir, hparent, hdir, hplace.trans (hl.touches.place_eq dir)⟩
  · exact hl.made loc hloc hsame

/-- A host on which one place has changed. -/
theorem of_place {loc : Location} (hlater : h.Precedes h')
    (hspares : h.files.Spares [loc] h'.files)
    (hat : ∀ other, other ≠ loc → h'.files.at? other = h.files.at? other) :
    Leaves p [loc] h h' :=
  ⟨⟨hlater, hspares⟩, fun other hother hchanged =>
    absurd (hat other fun heq => hother (heq ▸ List.mem_singleton_self loc)) hchanged⟩

/-- A file is still to come while only its temporary file has changed. -/
theorem pending (hl : Leaves p [h.files.place (temporary p)] h h') : Pending p h h' := by
  refine ⟨hl, fun old => hl.touches.holds_iff fun hmem => ?_⟩
  exact Files.place_temporary_ne h.files p (List.mem_singleton.mp hmem).symm

end Leaves

/-- Creating the directory of a path makes directories above it, and changes nothing else. -/
theorem makeParent_leaves (hc : h.Calm) (p : Path) : Leaves p [] h (makeParent p h).2 := by
  refine ⟨makeParent_touches hc p, fun loc _ hchanged => ?_⟩
  rw [makeParent] at hchanged
  cases hparent : p.parent? with
  | none =>
      rw [hparent] at hchanged
      exact absurd rfl hchanged
  | some parent =>
      rw [hparent] at hchanged
      dsimp only at hchanged
      split at hchanged
      · exact absurd rfl hchanged
      · obtain ⟨dir, hdir, hplace⟩ :=
          (Access.createDirectories_makes hc parent).named loc hchanged
        exact ⟨parent, dir, rfl, hdir, hplace⟩

/-- Removing a file changes its place only. -/
theorem remove_leaves (hc : h.Calm) (q : Path) :
    Leaves p [h.files.place q] h (Access.remove q h).2 := by
  have hlater := Access.precedes_change (fun fs => fs.remove q) h
  rcases hremove : Access.remove q h with ⟨e | ⟨⟩, h'⟩
  · exact .of_files_eq (hremove ▸ hlater) (Access.change_eq_error hc hremove)
  · obtain ⟨hdir, hfiles⟩ := Files.remove_eq_ok (Access.change_eq_ok hc hremove)
    refine .of_place (hremove ▸ hlater) (hfiles ▸ Files.spares_drop hdir) fun other hother => ?_
    rw [hfiles, Files.at?_drop (Files.ne_nil_of_isDirectoryAt hdir), if_neg hother]

/-! ### The temporary file -/

/-- The temporary file of a path is there, and its path leads to it. Only its place has changed. -/
structure Filling (p : Path) (h h' : Host) : Prop where
  leaves : Leaves p [h.files.place (temporary p)] h h'
  leads : h'.files.Leads (temporary p) (h'.files.place (temporary p))
  filled : (h'.files.contentsAt? (h'.files.place (temporary p))).isSome = true

/-- The temporary file of a path has moved to the path. -/
structure Renamed (p : Path) (h h' : Host) : Prop where
  leaves : Leaves p [h.files.place p, h.files.place (temporary p)] h h'
  gone : h'.files.at? (h.files.place (temporary p)) = none

/-- The steps between the creation of the temporary file and its move. -/
def filling (p : Path) (contents : Bytes) : List Step :=
  [.write (temporary p) contents, .flush, .sync]

/-- The temporary file of a path has a name. -/
theorem hasName_temporary (p : Path) : (temporary p).HasName := by
  obtain ⟨dir, name, hp⟩ := Path.exists_named p
  exact ⟨dir, _, hp.temporary, Path.isName_append name (by decide)⟩

/-- A temporary file that was put in its place is there. -/
theorem filling_of_put (hl : Leaves p [h.files.place (temporary p)] h h')
    (hlater : h'.Precedes h'') (hopen : h'.files.Open (temporary p))
    (hfiles : h''.files = h'.files.putFile (h'.files.place (temporary p)) contents) :
    Filling p h h'' := by
  obtain ⟨⟨executable, hat⟩, hspares⟩ := Files.at?_putFile hopen.free contents
  rw [← hfiles] at hat hspares
  have hput : Leaves p [h'.files.place (temporary p)] h' h'' :=
    .of_place hlater hspares fun other hother => by
      rw [hfiles, Files.at?_putFile_of_ne hopen.free contents hother]
  rw [hl.touches.place_eq] at hput
  refine ⟨hl.trans hput, ?_, ?_⟩
  · rw [hput.touches.place_eq]
    exact hopen.leads.spares hspares
  · rw [hput.touches.place_eq, Files.contentsAt?, hat]
    rfl

namespace Filling

/-- Looks leave the temporary file as it is. -/
theorem of_files_eq (hf : Filling p h h') (hlater : h'.Precedes h'')
    (hfiles : h''.files = h'.files) : Filling p h h'' :=
  ⟨hf.leaves.trans (.of_files_eq hlater hfiles), hfiles ▸ hf.leads, hfiles ▸ hf.filled⟩

/-- A step that fails leaves the temporary file as it is. -/
theorem of_error {step : Step} {e : FileError} (hc : h'.Calm) (hf : Filling p h h')
    (hrun : step.run h' = (.error e, h'')) : Filling p h h'' := by
  rw [step.run_eq hc] at hrun
  have hlater := Access.precedes_change step.apply h'
  rw [hrun] at hlater
  exact hf.of_files_eq hlater (Access.change_eq_error hc hrun)

/-- The steps that fill the temporary file keep it. -/
theorem run {step : Step} (hc : h'.Calm) (hf : Filling p h h')
    (hstep : step ∈ filling p contents) : Filling p h (step.run h').2 := by
  rcases hrun : step.run h' with ⟨e | ⟨⟩, h''⟩
  · exact hf.of_error hc hrun
  · obtain ⟨happly, hlater⟩ := run_eq_ok hc hrun
    simp only [filling, List.mem_cons, List.not_mem_nil, or_false] at hstep
    rcases hstep with rfl | rfl | rfl
    · obtain ⟨loc, hloc, hput⟩ := Files.exists_of_bind happly
      obtain ⟨rfl, hopen⟩ := Files.writable_eq_ok hloc
      exact filling_of_put hf.leaves hlater hopen (Except.ok.inj hput).symm
    · exact hf.of_files_eq hlater (Except.ok.inj happly).symm
    · exact hf.of_files_eq hlater (Except.ok.inj happly).symm

/-- Any of these steps keep it, one after the other. -/
theorem runAll {steps : List Step} (hc : h.Calm) (hf : Filling p h h')
    (hsteps : steps ⊆ filling p contents) : Filling p h (runAll steps h').2 := by
  induction steps generalizing h' with
  | nil => exact hf
  | cons step rest ih =>
      rw [List.cons_subset] at hsteps
      have hstep := hf.run (hf.leaves.touches.later.calm hc) hsteps.1
      rw [Publish.runAll, Access.andThen]
      rcases hrun : step.run h' with ⟨e | ⟨⟩, h''⟩ <;> rw [hrun] at hstep
      · exact hstep
      · exact ih hstep hsteps.2

/-- A temporary file that is moved leaves its place. -/
theorem rename (hc : h'.Calm) (hf : Filling p h h')
    (hrun : (Step.rename (temporary p) p).run h' = (.ok (), h'')) : Renamed p h h'' := by
  obtain ⟨happly, hlater⟩ := run_eq_ok hc hrun
  have hsame := hf.leaves.touches.place_eq
  have hfilled := hf.filled
  rw [Files.contentsAt?] at hfilled
  split at hfilled
  · next bytes time executable hfile =>
    obtain ⟨-, hspares, hat⟩ :=
      Files.at?_of_rename happly hfile (Files.place_temporary_ne h'.files p)
    have hmoved : Leaves p [h'.files.place p, h'.files.place (temporary p)] h' h'' := by
      refine ⟨⟨hlater, hspares⟩, fun loc hloc hchanged => absurd ?_ hchanged⟩
      simp only [List.mem_cons, List.not_mem_nil, or_false, not_or] at hloc
      rw [hat, if_neg hloc.1, if_neg hloc.2]
    rw [hsame, hsame] at hmoved
    refine ⟨(hf.leaves.mono (by simp)).trans hmoved, ?_⟩
    rw [← hsame, hat, if_neg (Files.place_temporary_ne h'.files p), if_pos rfl]
  · exact absurd hfilled (by simp)

/-- A temporary file whose removal fails for no reason of its own is gone. -/
theorem gone_of_remove (hc : h'.Calm) (hf : Filling p h h') (hfree : h'.enter.1 = none) :
    (Access.remove (temporary p) h').2.files.at? (h.files.place (temporary p)) = none := by
  obtain ⟨htaken, hdir⟩ := Files.at?_of_contentsAt? hf.filled
  have hremoved : h'.files.remove (temporary p) =
      .ok (h'.files.drop (h'.files.place (temporary p))) := by
    have hfilled := hf.filled
    rw [Files.contentsAt?] at hfilled
    split at hfilled
    · next hat => rw [Files.remove_of_leads (hasName_temporary p) hf.leads, hat]
    · exact absurd hfilled (by simp)
  rcases hremove : Access.remove (temporary p) h' with ⟨e | ⟨⟩, h''⟩
  · have herror := Access.error_of_change hc hfree hremove
    exact absurd (herror.symm.trans hremoved) (by simp)
  · have hfiles := Except.ok.inj ((Access.change_eq_ok hc hremove).symm.trans hremoved)
    rw [hfiles, ← hf.leaves.touches.place_eq, Files.at?_drop (Files.ne_nil_of_isDirectoryAt hdir),
      if_pos rfl]

end Filling

/-! ### The steps -/

/-- Some steps and then others. -/
theorem runAll_append (steps more : List Step) :
    runAll (steps ++ more) = Access.andThen (runAll steps) (runAll more) := by
  induction steps with
  | nil => rfl
  | cons step rest ih =>
      funext h
      rw [List.cons_append, runAll, ih, runAll]
      simp only [Access.andThen]
      rcases step.run h with ⟨_ | ⟨⟩, h'⟩ <;> rfl

/-- One step. -/
theorem runAll_singleton (step : Step) : runAll [step] = step.run := by
  funext h
  rw [runAll, Access.andThen]
  rcases step.run h with ⟨_ | ⟨⟩, h'⟩ <;> rfl

/-- Once the temporary file was created, the other steps move it, or fail and leave it there. -/
theorem runAll_filling (contents : Bytes) (hc : h.Calm) (hf : Filling p h h') :
    match runAll (filling p contents ++ [.rename (temporary p) p]) h' with
    | (.ok (), h'') => Renamed p h h''
    | (.error _, h'') => Filling p h h'' := by
  have hfilled := hf.runAll hc (List.Subset.refl (filling p contents))
  rw [runAll_append, runAll_singleton, Access.andThen]
  rcases hrun : runAll (filling p contents) h' with ⟨e | ⟨⟩, h₁⟩ <;> rw [hrun] at hfilled
  · exact hfilled
  · have hc₁ := hfilled.leaves.touches.later.calm hc
    dsimp only
    rcases hrename : (Step.rename (temporary p) p).run h₁ with ⟨e | ⟨⟩, h₂⟩
    · exact hfilled.of_error hc₁ hrename
    · exact hfilled.rename hc₁ hrename

/-- A temporary file that is created is there; one that cannot be leaves the files. -/
theorem run_create (hc : h.Calm) (hl : Leaves p [] h h') :
    match (Step.create (temporary p)).run h' with
    | (.ok (), h'') => Filling p h h''
    | (.error _, h'') => Leaves p [] h h'' := by
  have hc' := hl.touches.later.calm hc
  rcases hrun : (Step.create (temporary p)).run h' with ⟨e | ⟨⟩, h''⟩
  · rw [Step.run_eq _ hc'] at hrun
    have hlater := Access.precedes_change (Step.create (temporary p)).apply h'
    rw [hrun] at hlater
    exact hl.trans (.of_files_eq hlater (Access.change_eq_error hc' hrun))
  · obtain ⟨happly, hlater⟩ := run_eq_ok hc' hrun
    obtain ⟨loc, hloc, hput⟩ := Files.exists_of_bind happly
    obtain ⟨rfl, hopen⟩ := Files.writable_eq_ok hloc
    exact filling_of_put (hl.mono (by simp)) hlater hopen (Except.ok.inj hput).symm

/-- The steps of publishing a file fail with its temporary file as it was made, if it was. -/
theorem runAll_steps_eq_error {e : FileError} (hc : h.Calm) (hl : Leaves p [] h h₁)
    (hrun : runAll (steps p contents) h₁ = (.error e, h')) :
    Leaves p [h.files.place (temporary p)] h h' ∧
      ∀ h₂, (Step.create (temporary p)).run h₁ = (.ok (), h₂) → Filling p h h' := by
  have hcreated := run_create hc hl
  rw [show steps p contents = .create (temporary p) ::
    (filling p contents ++ [.rename (temporary p) p]) from rfl, runAll, Access.andThen] at hrun
  rcases hcreate : (Step.create (temporary p)).run h₁ with ⟨cause | ⟨⟩, h₂⟩ <;>
    rw [hcreate] at hcreated hrun
  · obtain ⟨-, rfl⟩ := Prod.mk.inj hrun
    exact ⟨hcreated.mono (by simp), fun _ hok => absurd hok (by simp)⟩
  · have hended := runAll_filling contents hc hcreated
    rw [show runAll (filling p contents ++ [.rename (temporary p) p]) h₂ = _ from hrun] at hended
    exact ⟨Filling.leaves hended, fun _ _ => hended⟩

/-- A file that was published has come. -/
theorem settled (hc : h.Calm) (hpublish : publish p contents h = (.ok (), h')) :
    Settled p contents h h' := by
  obtain ⟨-, hshows, -⟩ := publish_eq_ok hc hpublish
  have hmade := makeParent_leaves hc p
  rw [publish] at hpublish
  split at hpublish
  · exact absurd hpublish (by simp)
  · next h₁ hparent =>
    rw [hparent] at hmade
    split at hpublish
    · next h₂ hrun =>
      obtain ⟨-, rfl⟩ := Prod.mk.inj hpublish
      obtain ⟨h₃, hcreate, hrun⟩ := runAll_cons_eq_ok hrun
      have hcreated := run_create hc hmade
      rw [hcreate] at hcreated
      have hmoved := runAll_filling contents hc hcreated
      rw [show runAll (filling p contents ++ [.rename (temporary p) p]) h₃ = _ from hrun] at hmoved
      exact ⟨Renamed.leaves hmoved, hshows, Renamed.gone hmoved⟩
    · exact absurd hpublish (by simp)

/-- After any number of its steps the file is still to come, or it has come. -/
theorem pending_or_settled (hc : h.Calm) (hparent : makeParent p h = (.ok (), h₁)) (n : Nat) :
    Pending p h (runAll ((steps p contents).take n) h₁).2 ∨
      Settled p contents h (runAll ((steps p contents).take n) h₁).2 := by
  have hmade := makeParent_leaves hc p
  rw [hparent] at hmade
  rcases Nat.lt_or_ge n (steps p contents).length with hsome | hall
  · -- The file is not moved yet.
    rcases n with _ | n
    · exact .inl (hmade.mono (by simp)).pending
    have hcreated := run_create hc hmade
    have hfirst : (steps p contents).take (n + 1) =
        .create (temporary p) :: (filling p contents).take n := by
      have hn : n ≤ (filling p contents).length := Nat.le_of_lt_succ (Nat.lt_of_succ_lt_succ hsome)
      rw [show steps p contents = .create (temporary p) ::
        (filling p contents ++ [.rename (temporary p) p]) from rfl, List.take_succ_cons,
        List.take_append_of_le_length hn]
    rw [hfirst, runAll, Access.andThen]
    rcases hcreate : (Step.create (temporary p)).run h₁ with ⟨e | ⟨⟩, h₂⟩ <;>
      rw [hcreate] at hcreated
    · exact .inl (hcreated.mono (by simp)).pending
    · exact .inl (hcreated.runAll hc (List.take_subset n _)).leaves.pending
  · rw [List.take_of_length_le hall]
    rcases hrun : runAll (steps p contents) h₁ with ⟨e | ⟨⟩, h'⟩
    · exact .inl (runAll_steps_eq_error hc hmade hrun).1.pending
    · refine .inr (settled hc ?_)
      rw [publish, hparent]
      dsimp only
      rw [hrun]

/-- Removing what is left of a temporary file leaves a file that is still to come. -/
theorem pending_remove (hc : h.Calm) (hl : Leaves p [h.files.place (temporary p)] h h') :
    Pending p h (Access.remove (temporary p) h').2 := by
  have hremoved := remove_leaves (p := p) (hl.touches.later.calm hc) (temporary p)
  rw [hl.touches.place_eq] at hremoved
  exact (hl.trans hremoved).pending

/-- A file that could not be published is still to come, and the temporary file that was created
for it is removed. -/
theorem failed {e : BuildError} (hc : h.Calm) (hpublish : publish p contents h = (.error e, h')) :
    (∃ cause, e = .artifact p cause) ∧ Pending p h h' ∧
      ∀ h₁ h₂, makeParent p h = (.ok (), h₁) →
        (Step.create (temporary p)).run h₁ = (.ok (), h₂) →
        (runAll (steps p contents) h₁).2.enter.1 = none →
        h'.files.at? (h.files.place (temporary p)) = none := by
  have hmade := makeParent_leaves hc p
  rw [publish] at hpublish
  split at hpublish
  · next cause h₁ hparent =>
    rw [hparent] at hmade
    obtain ⟨he, rfl⟩ := Prod.mk.inj hpublish
    refine ⟨⟨cause, (Except.error.inj he).symm⟩, (hmade.mono (by simp)).pending,
      fun _ _ hok => ?_⟩
    exact absurd (hparent.symm.trans hok) (by simp)
  · next h₁ hparent =>
    rw [hparent] at hmade
    split at hpublish
    · exact absurd hpublish (by simp)
    · next cause h₃ hrun =>
      obtain ⟨he, rfl⟩ := Prod.mk.inj hpublish
      obtain ⟨hleaves, hfilling⟩ := runAll_steps_eq_error hc hmade hrun
      refine ⟨⟨cause, (Except.error.inj he).symm⟩, pending_remove hc hleaves,
        fun x h₂ hok hcreate hfree => ?_⟩
      obtain rfl : h₁ = x := (Prod.mk.inj (hparent.symm.trans hok)).2
      rw [hrun] at hfree
      exact (hfilling h₂ hcreate).gone_of_remove (hleaves.touches.later.calm hc) hfree

/-! ### When publishing succeeds -/

/-- A tree on which a file can be published: its directory is there, and what has its place or that
of its temporary file gives way. -/
structure Ready (p : Path) (fs : Files) : Prop where
  path : Files.Open fs p
  temporary : Files.Open fs (temporary p)
  noSocket : ∀ server, fs.at? (fs.place (Publish.temporary p)) ≠ some (.socket server)

/-- On such a tree, and on no other one, a temporary file is created, filled and moved. -/
theorem ready_iff {fs : Files} (contents : Bytes) :
    Ready p fs ↔ ∃ a b d, fs.create (temporary p) = .ok a ∧
      a.append (temporary p) contents = .ok b ∧ b.rename (temporary p) p = .ok d := by
  have hcreates : (∃ a, fs.create (temporary p) = .ok a) ↔ Files.Open fs (temporary p) ∧
      ∀ server, fs.at? (fs.place (temporary p)) ≠ some (.socket server) := by
    constructor
    · rintro ⟨a, hcreate⟩
      obtain ⟨loc, hwritable, -⟩ := Files.exists_of_bind hcreate
      exact (Files.writable_eq_ok_iff.mp hwritable).2
    · intro hopen
      have hwritable := Files.writable_eq_ok_iff.mpr ⟨rfl, hopen⟩
      exact ⟨_, by rw [Files.create, hwritable]; rfl⟩
  have hne := Files.place_temporary_ne fs p
  -- The temporary file is all that comes, so a file can be put then where it could before.
  have hmoves : ∀ a b, fs.create (temporary p) = .ok a → a.append (temporary p) contents = .ok b →
      ((∃ d, b.rename (temporary p) p = .ok d) ↔ Files.Open fs p) := by
    intro a b hcreate happend
    obtain ⟨hopen, -⟩ := hcreates.mp ⟨a, hcreate⟩
    obtain ⟨hworkDir, ⟨time, executable, hfile⟩, hothers⟩ := Files.at?_of_append hcreate happend
    have hdirs : ∀ loc, fs.isDirectoryAt loc = b.isDirectoryAt loc := by
      intro loc
      by_cases hloc : loc = fs.place (temporary p)
      · rw [hloc, hopen.free, Files.isDirectoryAt, hfile]
        rfl
      · rw [Files.isDirectoryAt, Files.isDirectoryAt, hothers loc hloc]
    rw [Files.open_congr hworkDir.symm hdirs]
    rw [← Files.place_congr hworkDir] at hfile
    constructor
    · rintro ⟨d, hrename⟩
      exact (Files.at?_of_rename hrename hfile (Files.place_temporary_ne b p)).1
    · intro hpath
      obtain ⟨hname, hleads, -⟩ := (Files.open_congr hworkDir.symm hdirs).mp hopen
      exact Files.exists_rename hname hleads hfile hpath
  constructor
  · rintro ⟨hpath, htemporary, hsocket⟩
    obtain ⟨a, hcreate⟩ := hcreates.mpr ⟨htemporary, hsocket⟩
    have happend := Files.append_of_create hcreate contents
    obtain ⟨d, hrename⟩ := (hmoves a _ hcreate happend).mpr hpath
    exact ⟨a, _, d, hcreate, happend, hrename⟩
  · rintro ⟨a, b, d, hcreate, happend, hrename⟩
    obtain ⟨htemporary, hsocket⟩ := hcreates.mp ⟨a, hcreate⟩
    exact ⟨(hmoves a b hcreate happend).mp ⟨d, hrename⟩, htemporary, hsocket⟩

/-- On a steady host a step succeeds where the files let it. -/
theorem exists_run (step : Step) {a : Files} (hc : h.Calm) (hsteady : h.Steady)
    (happly : step.apply h.files = .ok a) :
    ∃ h', step.run h = (.ok (), h') ∧ h.Precedes h' ∧ h'.files = a := by
  rcases hrun : step.run h with ⟨e | ⟨⟩, h'⟩
  · rw [step.run_eq hc] at hrun
    have herror := Access.error_of_change hc hsteady.failure_enter hrun
    exact absurd (herror.symm.trans happly) (by simp)
  · obtain ⟨happlied, hlater⟩ := run_eq_ok hc hrun
    exact ⟨h', rfl, hlater, Except.ok.inj (happlied.symm.trans happly)⟩

/-- On a steady host the steps of publishing a file succeed just where it can be published. -/
theorem runAll_steps_eq_ok_iff (contents : Bytes) (hc : h.Calm) (hsteady : h.Steady) :
    (runAll (steps p contents) h).1 = .ok () ↔ Ready p h.files := by
  rw [ready_iff contents]
  constructor
  · intro hok
    rcases hrun : runAll (steps p contents) h with ⟨r, h'⟩
    rw [hrun] at hok
    obtain rfl : r = .ok () := hok
    obtain ⟨-, a, b, hcreate, happend, hrename⟩ := runAll_steps_eq_ok hc hrun
    exact ⟨a, b, _, hcreate, happend, hrename⟩
  · rintro ⟨a, b, d, hcreate, happend, hrename⟩
    obtain ⟨h₁, hrun₁, hlater₁, rfl⟩ := exists_run (.create (temporary p)) hc hsteady hcreate
    obtain ⟨h₂, hrun₂, hlater₂, rfl⟩ := exists_run (.write (temporary p) contents)
      (hlater₁.calm hc) (hlater₁.steady hsteady) happend
    have hlater := hlater₁.trans hlater₂
    obtain ⟨h₃, hrun₃, hlater₃, hfiles₃⟩ := exists_run .flush (hlater.calm hc)
      (hlater.steady hsteady) rfl
    have hlater := hlater.trans hlater₃
    obtain ⟨h₄, hrun₄, hlater₄, hfiles₄⟩ := exists_run .sync (hlater.calm hc)
      (hlater.steady hsteady) rfl
    have hlater := hlater.trans hlater₄
    rw [← hfiles₃, ← hfiles₄] at hrename
    obtain ⟨h₅, hrun₅, -⟩ := exists_run (.rename (temporary p) p) (hlater.calm hc)
      (hlater.steady hsteady) hrename
    simp only [steps, runAll, Access.andThen, hrun₁, hrun₂, hrun₃, hrun₄, hrun₅]

/-- On a steady host publishing a file succeeds just where its directory can be made and it can be
published then. -/
theorem publish_eq_ok_iff (hc : h.Calm) (hsteady : h.Steady) :
    (publish p contents h).1 = .ok () ↔
      (makeParent p h).1 = .ok () ∧ Ready p (makeParent p h).2.files := by
  have hmade := makeParent_leaves hc p
  rw [publish]
  rcases hparent : makeParent p h with ⟨e | ⟨⟩, h₁⟩ <;> rw [hparent] at hmade
  · simp
  · have hlater := hmade.touches.later
    rw [← runAll_steps_eq_ok_iff contents (hlater.calm hc) (hlater.steady hsteady)]
    dsimp only
    rcases runAll (steps p contents) h₁ with ⟨e | ⟨⟩, h₂⟩ <;> simp

/-! ### Files with several names -/

end Publish

/-- A host whose files have been given other names. -/
def Host.under (names : Names) (h : Host) : Host := { h with names }

/-- What happens before an access has nothing to do with the names of files. -/
theorem Host.enter_under (names : Names) (h : Host) :
    (h.under names).enter = (h.enter.1, h.enter.2.under names) := by
  rcases hinterference : h.interference with _ | ⟨i, later⟩ <;>
    simp only [enter, under, hinterference]

namespace Access

variable {α : Type}

/-- An access on which names have no say does the same under all of them. -/
theorem under_of_enter (act : Access α) (names : Names)
    (hact : ∀ h : Host, act (h.under names) = ((act h).1, (act h).2.under names)) (h : Host) :
    (match (h.under names).enter with
      | (some e, h) => ((.error e : Except FileError α), h)
      | (none, h) => act h) =
    ((match h.enter with
      | (some e, h) => ((.error e : Except FileError α), h)
      | (none, h) => act h).1,
     (match h.enter with
      | (some e, h) => ((.error e : Except FileError α), h)
      | (none, h) => act h).2.under names) := by
  rw [Host.enter_under]
  rcases h.enter with ⟨e | _, entered⟩
  · exact hact entered
  · rfl

/-- A change is the same under all names. -/
theorem change_under (f : Files → Except FileError Files) (names : Names) (h : Host) :
    change f (h.under names) = ((change f h).1, (change f h).2.under names) := by
  refine under_of_enter _ names (fun h => ?_) h
  rw [Host.under]
  dsimp only
  split <;> rfl

/-- Creating directories is the same under all names. -/
theorem createDirectories_under (p : Path) (names : Names) (h : Host) :
    createDirectories p (h.under names) =
      ((createDirectories p h).1, (createDirectories p h).2.under names) := by
  refine under_of_enter _ names (fun h => ?_) h
  rw [Host.under]
  dsimp only
  split <;> rfl

end Access

namespace Publish

/-- Creating the directory of a path is the same under all names. -/
theorem makeParent_under (p : Path) (names : Names) (h : Host) :
    makeParent p (h.under names) = ((makeParent p h).1, (makeParent p h).2.under names) := by
  rw [makeParent]
  cases p.parent? with
  | none => rfl
  | some dir =>
      dsimp only
      split
      · rfl
      · exact Access.createDirectories_under dir names h

/-- A place is no name of a file that has several. -/
def Alone (names : Names) (loc : Location) : Prop := ∀ group ∈ names, loc ∉ group

variable {names : Names} {t : Path}

/-- A step leaves the work directory. -/
theorem Step.workDir_apply {step : Step} {a b : Files} (h : step.apply a = .ok b) :
    b.workDir = a.workDir := by
  cases step with
  | create q =>
      obtain ⟨loc, -, hput⟩ := Files.exists_of_bind h
      rw [← Except.ok.inj hput]
      rfl
  | write q contents =>
      obtain ⟨loc, -, hput⟩ := Files.exists_of_bind h
      rw [← Except.ok.inj hput]
      rfl
  | flush => rw [Except.ok.inj h]
  | sync => rw [Except.ok.inj h]
  | rename source q => exact Files.workDir_rename h

/-- A step on a file with one name is the same whatever names other files have. -/
theorem Step.run_under {step : Step} (hc : h.Calm) (halone : Alone names (h.files.place t))
    (hstep : ∀ q, step.touched? = some q → q = t) :
    step.run (h.under names) = ((step.run h).1, (step.run h).2.under names) := by
  have hfiles : (h.under names).enter.2.files = h.files := by
    rw [Host.enter_under]
    exact hc.files_enter
  have hchange : step.run (h.under names) = Access.change step.apply (h.under names) := by
    refine Step.run_eq_change fun group hgroup q hq => ?_
    rw [hfiles, hstep q hq]
    exact halone group hgroup
  rw [hchange, step.run_eq hc, Access.change_under]

/-- So are steps one after the other. -/
theorem runAll_under {steps : List Step} (hc : h.Calm) (halone : Alone names (h.files.place t))
    (hsteps : ∀ step ∈ steps, ∀ q, step.touched? = some q → q = t) :
    runAll steps (h.under names) = ((runAll steps h).1, (runAll steps h).2.under names) := by
  induction steps generalizing h with
  | nil => rfl
  | cons step rest ih =>
      obtain ⟨hstep, hrest⟩ := List.forall_mem_cons.mp hsteps
      rw [runAll, Access.andThen, Access.andThen, Step.run_under hc halone hstep]
      rcases hrun : step.run h with ⟨e | ⟨⟩, h'⟩
      · rfl
      obtain ⟨happly, hlater⟩ := run_eq_ok hc hrun
      refine ih (hlater.calm hc) ?_ hrest
      rw [Files.place_congr (Step.workDir_apply happly)]
      exact halone

/-- All steps work on the temporary file. -/
theorem touched_of_mem_steps {step : Step} (hstep : step ∈ steps p contents) {q : Path}
    (hq : step.touched? = some q) : q = temporary p := by
  simp only [steps, List.mem_cons, List.not_mem_nil, or_false] at hstep
  rcases hstep with rfl | rfl | rfl | rfl | rfl <;> simp_all [Step.touched?]

/-- **Names.** Publishing a file is the same whatever names other files have, as long as its
temporary file has one name. -/
theorem publish_under (hc : h.Calm) (halone : Alone names (h.files.place (temporary p))) :
    publish p contents (h.under names) =
      ((publish p contents h).1, (publish p contents h).2.under names) := by
  have hmade := makeParent_leaves hc p
  rw [publish, publish, makeParent_under]
  rcases hparent : makeParent p h with ⟨e | ⟨⟩, h₁⟩
  · rfl
  rw [hparent] at hmade
  have halone₁ : Alone names (h₁.files.place (temporary p)) := by
    rw [hmade.touches.place_eq]
    exact halone
  dsimp only
  rw [runAll_under (hmade.touches.later.calm hc) halone₁ fun _ hstep _ =>
    touched_of_mem_steps hstep]
  rcases runAll (steps p contents) h₁ with ⟨e | ⟨⟩, h₂⟩
  · exact congrArg (Prod.mk _) (congrArg Prod.snd (Access.change_under _ names h₂))
  · rfl

/-- A file that is still to come is so under other names. -/
theorem Pending.under (hp : Pending p h h') (names : Names) :
    Pending p (h.under names) (h'.under names) :=
  ⟨⟨⟨⟨hp.leaves.touches.later.rest, id⟩, hp.leaves.touches.files⟩, hp.leaves.made⟩, hp.kept⟩

/-- A file that has come has come under other names. -/
theorem Settled.under (hs : Settled p contents h h') (names : Names) :
    Settled p contents (h.under names) (h'.under names) :=
  ⟨⟨⟨⟨hs.leaves.touches.later.rest, id⟩, hs.leaves.touches.files⟩, hs.leaves.made⟩, hs.shows,
    hs.gone⟩

/-- A directory that was made under some names was made. -/
theorem exists_makeParent (hparent : makeParent p (h.under names) = (.ok (), h₁)) :
    ∃ k, makeParent p h = (.ok (), k) ∧ h₁ = k.under names := by
  rw [makeParent_under] at hparent
  obtain ⟨hok, hleft⟩ := Prod.mk.inj hparent
  exact ⟨_, Prod.ext hok rfl, hleft.symm⟩

/-- Once the directory is there, the first steps of publishing a file are the same under all
names. -/
theorem runAll_steps_under (hc : h.Calm) (halone : Alone names (h.files.place (temporary p)))
    (hparent : makeParent p h = (.ok (), h₁)) {first : List Step} (contents : Bytes)
    (hfirst : first ⊆ steps p contents) :
    runAll first (h₁.under names) = ((runAll first h₁).1, (runAll first h₁).2.under names) := by
  have hmade := makeParent_leaves hc p
  rw [hparent] at hmade
  refine runAll_under (t := temporary p) (hmade.touches.later.calm hc) ?_ fun step hstep _ =>
    touched_of_mem_steps (hfirst hstep)
  rw [hmade.touches.place_eq]
  exact halone

/-- After any number of its steps a file is still to come, or it has come, whatever names other
files have. -/
theorem pending_or_settled_under (hc : h.Calm)
    (halone : Alone names (h.files.place (temporary p)))
    (hparent : makeParent p (h.under names) = (.ok (), h₁)) (n : Nat) :
    Pending p (h.under names) (runAll ((steps p contents).take n) h₁).2 ∨
      Settled p contents (h.under names) (runAll ((steps p contents).take n) h₁).2 := by
  obtain ⟨k, hmade, rfl⟩ := exists_makeParent hparent
  rw [runAll_steps_under hc halone hmade contents (List.take_subset n _)]
  exact (pending_or_settled hc hmade n).imp (·.under names) (·.under names)

/-- A file that was published has come, whatever names other files have. -/
theorem settled_under (hc : h.Calm) (halone : Alone names (h.files.place (temporary p)))
    (hpublish : publish p contents (h.under names) = (.ok (), h')) :
    Settled p contents (h.under names) h' := by
  rw [publish_under hc halone] at hpublish
  obtain ⟨hok, rfl⟩ := Prod.mk.inj hpublish
  exact (settled hc (Prod.ext hok rfl)).under names

/-- A file that could not be published is still to come, and its temporary file is removed, whatever
names other files have. -/
theorem failed_under {e : BuildError} (hc : h.Calm)
    (halone : Alone names (h.files.place (temporary p)))
    (hpublish : publish p contents (h.under names) = (.error e, h')) :
    (∃ cause, e = .artifact p cause) ∧ Pending p (h.under names) h' ∧
      ∀ h₁ h₂, makeParent p (h.under names) = (.ok (), h₁) →
        (Step.create (temporary p)).run h₁ = (.ok (), h₂) →
        (runAll (steps p contents) h₁).2.enter.1 = none →
        h'.files.at? (h.files.place (temporary p)) = none := by
  rw [publish_under hc halone] at hpublish
  obtain ⟨herror, rfl⟩ := Prod.mk.inj hpublish
  obtain ⟨hcause, hpending, hgone⟩ := failed hc (Prod.ext herror rfl)
  refine ⟨hcause, hpending.under names, fun h₁ h₂ hparent hcreate hfree => ?_⟩
  obtain ⟨k, hmade, rfl⟩ := exists_makeParent hparent
  have hfirst : [Step.create (temporary p)] ⊆ steps p contents :=
    List.cons_subset.mpr ⟨List.mem_cons_self, List.nil_subset _⟩
  have hcreates := runAll_steps_under hc halone hmade contents hfirst
  rw [runAll_singleton, hcreate] at hcreates
  rw [runAll_steps_under hc halone hmade contents (List.Subset.refl _), Host.enter_under] at hfree
  exact hgone k _ hmade (Prod.ext (Prod.mk.inj hcreates).1.symm rfl) hfree

end Publish

/-- **Atomicity.** A file is published where nobody else saves files, and its temporary file has one
name. After any number of the steps, and whichever of them failed, what stood at its path stands
there or its path shows the new file, which is so once publishing succeeds. When it fails what stood
there stands there, and a temporary file that was created is gone, unless its removal fails for a
reason of its own. Nothing else changes but that directories above the path may be made. Where no
access fails for a reason of its own publishing succeeds, unless the files do not let it. -/
theorem publish_atomic (hu : h.Undisturbed)
    (halone : Publish.Alone h.names (h.files.place (Publish.temporary p))) :
    (∀ h₁ n, Publish.makeParent p h = (.ok (), h₁) →
      Publish.Pending p h (Publish.runAll ((Publish.steps p contents).take n) h₁).2 ∨
        Publish.Settled p contents h (Publish.runAll ((Publish.steps p contents).take n) h₁).2) ∧
    (∀ h', publish p contents h = (.ok (), h') → Publish.Settled p contents h h') ∧
    (∀ e h', publish p contents h = (.error e, h') →
      (∃ cause, e = .artifact p cause) ∧ Publish.Pending p h h' ∧
        ∀ h₁ h₂, Publish.makeParent p h = (.ok (), h₁) →
          (Publish.Step.create (Publish.temporary p)).run h₁ = (.ok (), h₂) →
          (Publish.runAll (Publish.steps p contents) h₁).2.enter.1 = none →
          h'.files.at? (h.files.place (Publish.temporary p)) = none) ∧
    (h.Steady → ((publish p contents h).1 = .ok () ↔
      (Publish.makeParent p h).1 = .ok () ∧
        Publish.Ready p (Publish.makeParent p h).2.files)) := by
  -- The host is the one without other names, under its names.
  have hc : (h.under []).Calm := ⟨hu, rfl⟩
  have halone : Publish.Alone h.names ((h.under []).files.place (Publish.temporary p)) := halone
  have hself : h = (h.under []).under h.names := rfl
  refine ⟨fun _ n hparent => ?_, fun _ hpublish => ?_, fun _ _ hpublish => ?_, fun hsteady => ?_⟩
  · exact Publish.pending_or_settled_under hc halone hparent n
  · exact Publish.settled_under (h := h.under []) hc halone hpublish
  · exact Publish.failed_under (h := h.under []) hc halone hpublish
  · rw [hself, Publish.publish_under hc halone, Publish.makeParent_under]
    exact Publish.publish_eq_ok_iff hc hsteady

namespace Shared

/-- The path of an output. -/
def path : Path := ⟨"/b/Game.dll"⟩

/-- A host with an output that has a second name. -/
def host : Host where
  files := { entries := [(["b"], .directory), (["b", "Game.dll"], .file [1] ⟨5⟩ false),
    (["b", "kept.dll"], .file [1] ⟨5⟩ false)] }
  names := [[["b", "kept.dll"], ["b", "Game.dll"]]]

/-- The host on a disk from which a new output cannot be moved to its path. -/
def failing : Host :=
  { host with
    interference := [{}, {}, {}, {}, {}, { failure := some (.other "Input/output error") }] }

/-- The output can be published on the host. -/
theorem ready : Publish.Ready path (Publish.makeParent path host).2.files := by
  let plain : Host := { files := (Publish.makeParent path host).2.files }
  have hcalm : plain.Calm := Host.calm_of_quiet rfl rfl
  have hsteady : plain.Steady := fun i hi => absurd hi List.not_mem_nil
  exact (Publish.runAll_steps_eq_ok_iff [2] hcalm hsteady).mp (by decide +kernel)

/-- The output is replaced, and its second name keeps what it was. Where it cannot be moved the
output stays as it was, and its temporary file is gone. -/
theorem output_replaced_or_kept :
    (publish path [2] host).1 = .ok () ∧
      Publish.Settled path [2] host (publish path [2] host).2 ∧
      (publish path [2] host).2.Shows ⟨"/b/kept.dll"⟩ [1] ∧
      (publish path [2] failing).1 = .error (.artifact path (.other "Input/output error")) ∧
      Publish.Pending path failing (publish path [2] failing).2 ∧
      (publish path [2] failing).2.files.at? (failing.files.place (Publish.temporary path)) =
        none := by
  have halone : Publish.Alone host.names (host.files.place (Publish.temporary path)) := by
    rw [Publish.Alone]
    decide +kernel
  have hkept : (publish path [2] host).2.Shows ⟨"/b/kept.dll"⟩ [1] := by
    rw [Host.Shows]
    decide +kernel
  have hresult : (publish path [2] failing).1 =
      .error (.artifact path (.other "Input/output error")) := by decide +kernel
  have hparent : (Publish.makeParent path failing).1 = .ok () := by decide +kernel
  have hcreate : ((Publish.Step.create (Publish.temporary path)).run
      (Publish.makeParent path failing).2).1 = .ok () := by decide +kernel
  have hfree : (Publish.runAll (Publish.steps path [2])
      (Publish.makeParent path failing).2).2.enter.1 = none := by decide +kernel
  obtain ⟨-, hsettled, -, hsteady⟩ :=
    @publish_atomic host path [2] (by simp [Host.Undisturbed, host]) halone
  obtain ⟨-, -, hfailed, -⟩ :=
    @publish_atomic failing path [2] (by simp [Host.Undisturbed, failing]) halone
  have hready : (publish path [2] host).1 = .ok () :=
    (hsteady (by simp [Host.Steady, host])).mpr ⟨by decide +kernel, ready⟩
  refine ⟨hready, ?_, hkept, hresult, ?_⟩
  · rcases hpublish : publish path [2] host with ⟨result, h'⟩
    rw [hpublish] at hready
    obtain rfl : result = .ok () := hready
    exact hsettled h' hpublish
  · rcases hmade : Publish.makeParent path failing with ⟨made, h₁⟩
    rw [hmade] at hparent hcreate hfree
    rcases hcreated : (Publish.Step.create (Publish.temporary path)).run h₁ with ⟨created, h₂⟩
    rw [hcreated] at hcreate
    rcases hpublish : publish path [2] failing with ⟨result, h'⟩
    rw [hpublish] at hresult
    obtain rfl : made = .ok () := hparent
    obtain rfl : created = .ok () := hcreate
    obtain rfl : result = .error (.artifact path (.other "Input/output error")) := hresult
    obtain ⟨-, hpending, hgone⟩ := hfailed _ h' hpublish
    exact ⟨hpending, hgone h₁ h₂ hmade hcreated hfree⟩

/-- A host on which the temporary file of an output is a second name of it. -/
def linked : Host where
  files := { entries := [(["b"], .directory), (["b", "Game.dll"], .file [1] ⟨5⟩ false),
    (["b", "Game.dll.kiln-tmp"], .file [1] ⟨5⟩ false)] }
  names := [[["b", "Game.dll.kiln-tmp"], ["b", "Game.dll"]]]

/-- A host on which it is a second name of another file. -/
def borrowed : Host where
  files := { entries := [(["b"], .directory), (["b", "other.txt"], .file [1] ⟨5⟩ false),
    (["b", "Game.dll.kiln-tmp"], .file [1] ⟨5⟩ false)] }
  names := [[["b", "Game.dll.kiln-tmp"], ["b", "other.txt"]]]

/-- When the temporary file has another name, that one is emptied and filled with it. The output is
neither what it was nor the new one then, and its temporary file is left when it has come; or
another file is lost. -/
theorem output_emptied :
    linked.interference = [] ∧ (Publish.makeParent path linked).1 = .ok () ∧
      (Publish.runAll ((Publish.steps path [2]).take 1) (Publish.makeParent path linked).2).2.Holds
        path [] ∧
      ¬ Publish.Pending path linked
        (Publish.runAll ((Publish.steps path [2]).take 1) (Publish.makeParent path linked).2).2 ∧
      ¬ Publish.Settled path [2] linked
        (Publish.runAll ((Publish.steps path [2]).take 1) (Publish.makeParent path linked).2).2 ∧
      (publish path [2] linked).1 = .ok () ∧
      ¬ Publish.Settled path [2] linked (publish path [2] linked).2 ∧
      borrowed.interference = [] ∧ (publish path [2] borrowed).1 = .ok () ∧
      borrowed.Shows ⟨"/b/other.txt"⟩ [1] ∧
      (publish path [2] borrowed).2.Shows ⟨"/b/other.txt"⟩ [2] := by
  have hemptied : (Publish.runAll ((Publish.steps path [2]).take 1)
      (Publish.makeParent path linked).2).2.Holds path [] := by
    rw [Host.Holds]
    decide +kernel
  have hold : linked.Holds path [1] := by
    rw [Host.Holds]
    decide +kernel
  refine ⟨rfl, by decide +kernel, hemptied, fun hpending => ?_, fun hsettled => ?_,
    by decide +kernel, fun hsettled => ?_, rfl, by decide +kernel, ?_, ?_⟩
  · exact absurd (((hpending.kept [1]).mpr hold).unique hemptied) (by decide)
  · exact absurd (hsettled.shows.holds.unique hemptied) (by decide)
  · have hleft : (publish path [2] linked).2.files.at?
        (linked.files.place (Publish.temporary path)) ≠ none := by decide +kernel
    exact hleft hsettled.gone
  · rw [Host.Shows]
    decide +kernel
  · rw [Host.Shows]
    decide +kernel

end Shared
end IncrementalBuild
