import IncrementalBuild.Host
import IncrementalBuild.Proofs.Host.Places
/-!
# What is written under one name of a file

What is written to a file is shown under its other names, and nowhere else. So a file that was never
given another name is written and moved as the tree says.

## Main results

* `Files.exists_spares_spread` — what is written changes the place that is written, and other names.
* `Names.others_eq_nil`, `Names.spread_eq`, `Names.move_eq` — a location that is the only name of
  its file.
* `Access.fill_eq_change`, `Access.rename_eq_change` — writing and moving such a file are changes of
  the tree.
-/

namespace IncrementalBuild

variable {names : Names} {fs written : Files} {loc other : Location} {p q : Path} {h : Host}

/-! ### Other names -/

/-- Entries that are put where no directories stand change these places only. -/
theorem Files.spares_puts {e : Entry} (he : e ≠ .directory) {places : List Location}
    (hfree : ∀ place ∈ places, fs.isDirectoryAt place = false) :
    Spares places fs (places.foldl (fun tree place => tree.put place e) fs) := by
  induction places generalizing fs with
  | nil => exact .refl [] fs
  | cons place rest ih =>
      obtain ⟨hplace, hrest⟩ := List.forall_mem_cons.mp hfree
      have hput (other : Location) :
          (fs.put place e).at? other = if other = place then some e else fs.at? other :=
        at?_put (ne_nil_of_isDirectoryAt hplace) e other
      have hfirst : Spares [place] fs (fs.put place e) :=
        spares_of_at? hplace rfl fun other hother => (hput other).trans (if_neg hother)
      have hothers := @ih (fs.put place e) fun other hother => by
        rw [isDirectoryAt, hput]
        split
        · simpa using he
        · exact hrest other hother
      exact (hfirst.mono (by simp)).trans (hothers.mono (List.subset_cons_self _ _))

/-- Another name of a file is one that it was given, and leads to no directory. -/
theorem Names.mem_others (h : other ∈ names.others fs loc) :
    other ∈ names.flatten ∧ other ≠ loc ∧ fs.at? other = fs.at? loc ∧
      fs.isDirectoryAt other = false := by
  rw [others] at h
  split at h
  · next contents time executable hat =>
    obtain ⟨hfamily, hother⟩ := List.mem_filter.mp h
    rw [Bool.and_eq_true, bne_iff_ne, beq_iff_eq] at hother
    obtain ⟨group, hgroup, hmem⟩ := List.mem_flatten.mp hfamily
    refine ⟨List.mem_flatten.mpr ⟨group, (List.mem_filter.mp hgroup).1, hmem⟩, hother.1,
      hother.2, ?_⟩
    rw [Files.isDirectoryAt, hother.2, hat]
    rfl
  · exact absurd h List.not_mem_nil

/-- **Other names.** What is written to a file changes its other names besides its place. -/
theorem Files.exists_spares_spread (names : Names) (hwritten : Spares [fs.place p] fs written)
    (hfile : written.at? (fs.place p) ≠ some .directory) :
    ∃ others ⊆ names.flatten, fs.place p ∉ others ∧
      written.Spares others (fs.spread names p written) := by
  rw [spread]
  split
  · next loc hlocate =>
    obtain rfl : loc = fs.place p := locate_eq_ok hlocate
    refine ⟨names.others fs (fs.place p), fun other hother => (Names.mem_others hother).1,
      fun hmem => (Names.mem_others hmem).2.1 rfl, ?_⟩
    rw [Names.spread]
    split
    · next e he =>
      refine spares_puts (fun hdir => hfile (he.trans (congrArg some hdir))) fun other hother => ?_
      obtain ⟨-, hne, hat, hfree⟩ := Names.mem_others hother
      rcases hwritten.elsewhere other (by simpa using hne) with hsame | ⟨hnone, -⟩
      · rw [isDirectoryAt, hsame]
        exact hfree
      · rw [Names.others, ← hat, hnone] at hother
        exact absurd hother List.not_mem_nil
    · exact .refl _ _
  · exact ⟨[], List.nil_subset _, List.not_mem_nil, .refl [] _⟩

/-! ### Files with one name -/

namespace Names

/-- A location that is nobody's other name has no family. -/
theorem family_eq_nil (hloc : ∀ group ∈ names, loc ∉ group) : names.family loc = [] := by
  have hnone : names.filter (fun group => group.contains loc) = [] :=
    List.filter_eq_nil_iff.mpr fun group hgroup => by simpa using hloc group hgroup
  rw [family, hnone, List.flatten_nil]

/-- Its file has no other names. -/
theorem others_eq_nil (hloc : ∀ group ∈ names, loc ∉ group) : names.others fs loc = [] := by
  rw [others, family_eq_nil hloc]
  split <;> rfl

/-- What is written there is shown nowhere else. -/
theorem spread_eq (hloc : ∀ group ∈ names, loc ∉ group) :
    names.spread fs loc written = written := by
  rw [spread, others_eq_nil hloc]
  split <;> rfl

/-- Moving its file changes no names. -/
theorem move_eq (hloc : ∀ group ∈ names, loc ∉ group) : names.move loc other = names := by
  refine (List.map_congr_left fun group hgroup => ?_).trans (List.map_id names)
  rw [if_neg (by simpa using hloc group hgroup), id]

end Names

namespace Files

/-- What is written at the only name of a file is shown nowhere else. -/
theorem spread_eq (hp : ∀ group ∈ names, fs.place p ∉ group) :
    fs.spread names p written = written := by
  rw [spread]
  split
  · next loc hlocate =>
    obtain rfl : loc = fs.place p := locate_eq_ok hlocate
    exact Names.spread_eq hp
  · rfl

/-- The only name of a file is no other one. -/
theorem oneFile_eq_false (hp : ∀ group ∈ names, fs.place p ∉ group) :
    fs.oneFile names p q = false := by
  rw [oneFile]
  split
  · next loc other hlocate _ =>
    obtain rfl : loc = fs.place p := locate_eq_ok hlocate
    rw [Names.others_eq_nil hp]
    rfl
  · rfl

end Files

/-- What happens before an access gives no file another name. -/
@[simp] theorem Host.names_enter (h : Host) : h.enter.2.names = h.names := by
  rw [enter]
  split <;> rfl

namespace Access

/-- Writing a file with one name changes the tree as it says. -/
theorem fill_eq_change (hp : ∀ group ∈ h.names, h.enter.2.files.place p ∉ group)
    (f : Files → Except FileError Files) : fill p f h = change f h := by
  rw [fill, change, change]
  split
  · rfl
  · next entered henter =>
    rw [henter] at hp
    rcases f entered.files with e | written
    · rfl
    · simp only [Except.map, Files.spread_eq hp]

/-- Moving a file with one name changes the tree as it says. -/
theorem rename_eq_change (hp : ∀ group ∈ h.names, h.enter.2.files.place p ∉ group) (q : Path) :
    rename p q h = change (fun fs => fs.rename p q) h := by
  have hnames := h.names_enter
  rw [rename, change]
  split
  · rfl
  · next entered henter =>
    rw [henter] at hp hnames
    rw [← hnames] at hp
    rw [Files.oneFile_eq_false hp, if_neg Bool.false_ne_true]
    rcases entered.files.rename p q with e | files
    · rfl
    dsimp only
    split
    · next old new hold _ =>
      obtain rfl : old = entered.files.place p := Files.locate_eq_ok hold
      rw [Names.move_eq hp]
    · rfl

end Access
end IncrementalBuild
