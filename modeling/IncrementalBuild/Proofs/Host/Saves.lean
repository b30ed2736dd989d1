import IncrementalBuild.Proofs.Host.Alike
import IncrementalBuild.Proofs.Publish
/-!
# Files that others save meanwhile

While a task goes through its accesses, others may save files, and a file that is written is shown
under all its names. As long as nothing is saved at the place of a file that the task has written,
and none of its files has several names, the file shows what was written.

## Main definitions

* `Host.savedPlaces` — the places where others are going to save files, and those of files with
  several names.

## Main results

* `Host.touches_enter` — before an access only those places change.
* `Access.write_eq_ok` — a file that was written shows its contents, whatever others save.
-/

namespace IncrementalBuild

variable {h h' : Host} {p : Path} {places : List Location} {contents : Bytes}

namespace Files

/-- A save changes the place of its path only. -/
theorem spares_save (fs : Files) (s : Save) : Spares [fs.place s.path] fs (fs.save s) := by
  rcases save_eq_or_replaced fs s with ⟨heq, -⟩ | ⟨-, time, executable, hreplaced⟩
  · rw [heq]
    exact .refl _ fs
  · refine spares_of_at? hreplaced.free hreplaced.workDir fun other hother => ?_
    rw [hreplaced.at?, if_neg hother]

/-- Saves change the places of their paths only. -/
theorem spares_saves (fs : Files) (saves : List Save) :
    Spares (saves.map fun s => fs.place s.path) fs (saves.foldl save fs) := by
  induction saves generalizing fs with
  | nil => exact .refl _ fs
  | cons s rest ih =>
      have hfirst := spares_save fs s
      have hrest := ih (fs.save s)
      simp only [← place_congr hfirst.workDir] at hrest
      refine (hfirst.mono ?_).trans (hrest.mono ?_)
      · exact List.cons_subset.mpr ⟨List.mem_cons_self, List.nil_subset _⟩
      · exact List.subset_cons_self _ _

/-- A file that was written stands at the place of its path. -/
theorem at?_write {fs a : Files} (h : fs.write p contents = .ok a) :
    ∃ time executable, a.at? (fs.place p) = some (.file contents time executable) := by
  obtain ⟨hopen, rfl⟩ := write_eq_ok h
  obtain ⟨⟨executable, hat⟩, -⟩ := at?_putFile hopen.free contents
  exact ⟨_, executable, hat⟩

/-- A file that was written is shown. -/
theorem contentsOf?_write {fs a : Files} (h : fs.write p contents = .ok a) :
    a.contentsOf? p = some contents := by
  obtain ⟨hopen, rfl⟩ := write_eq_ok h
  obtain ⟨⟨executable, hat⟩, hspares⟩ := at?_putFile hopen.free contents
  refine contentsOf?_of_locate ((hopen.leads.spares hspares).locate ?_) ?_
  · rw [hat]
    rfl
  · rw [contentsAt?, hat]

end Files

namespace Host

/-- The places where something else may be written: where others are going to save files, and the
names of files that have several. -/
def savedPlaces (h : Host) : List Location :=
  (h.interference.flatMap fun i => i.saves.map fun s => h.files.place s.path) ++ h.names.flatten

/-- Later there are no more such places, unless files got more names. -/
theorem Touches.savedPlaces_subset (ht : h.Touches places h') (hnames : h'.names = h.names) :
    h'.savedPlaces ⊆ h.savedPlaces := by
  refine List.append_subset.mpr ⟨fun loc hloc => List.mem_append_left _ ?_, ?_⟩
  · obtain ⟨i, hi, hsave⟩ := List.mem_flatMap.mp hloc
    refine List.mem_flatMap.mpr ⟨i, ht.later.rest.subset hi, ?_⟩
    simpa only [ht.place_eq] using hsave
  · rw [hnames]
    exact List.subset_append_right _ _

/-- **Before an access** only places change where others save files. -/
theorem touches_enter (h : Host) : h.Touches h.savedPlaces h.enter.2 := by
  refine ⟨h.precedes_enter, ?_⟩
  rw [enter]
  split
  · exact .refl _ _
  · next i later hinterference =>
      refine (Files.spares_saves h.files i.saves).mono ?_
      rw [savedPlaces, hinterference, List.flatMap_cons, List.append_assoc]
      exact List.subset_append_left _ _

end Host

/-- **A file that was written** shows its contents. Besides its place only those have changed where
others save files, and its other names. -/
theorem Access.write_eq_ok (hwrite : write p contents h = (.ok (), h')) :
    h.Touches (h.files.place p :: h.savedPlaces) h' ∧ h'.Shows p contents ∧
      h'.names = h.names := by
  have hentered := h.touches_enter
  have hnames := h.names_enter
  rw [write, fill, change] at hwrite
  split at hwrite
  · exact absurd hwrite (by simp)
  · next entered henter =>
      rw [henter] at hentered hnames
      rcases hwritten : entered.files.write p contents with e | written <;>
        rw [hwritten] at hwrite
      · exact absurd hwrite (by simp [Except.map])
      · obtain ⟨-, rfl⟩ := Prod.mk.inj hwrite
        have hspares := Files.spares_write hwritten
        have hshows := Files.contentsOf?_write hwritten
        obtain ⟨time, executable, hat⟩ := Files.at?_write hwritten
        obtain ⟨others, hothers, hplace, hspread⟩ := Files.exists_spares_spread h.names hspares
          (by rw [hat]; simp)
        rw [Files.place_congr hspares.workDir] at hplace
        have hall := (hspares.mono (List.subset_append_left _ others)).trans
          (hspread.mono (List.subset_append_right _ _))
        rw [hentered.place_eq] at hall
        refine ⟨(hentered.mono (List.subset_cons_self _ _)).trans ⟨.of_eq rfl rfl, ?_⟩,
          hspread.contentsOf?_eq_some hshows hplace, hnames⟩
        refine hall.mono (List.cons_subset_cons _ fun loc hloc => List.mem_append_right _ ?_)
        exact hothers hloc

end IncrementalBuild
