import IncrementalBuild.Proofs.Host.Places
import IncrementalBuild.Proofs.Path.Keys
/-!
# Files in one directory

Different names in one directory make paths that are apart and name different places, whatever
the text of the directory is.

## Main results

* `Path.exists_named_join` — how names are read in a directory.
* `Path.apart_join`, `Files.nodup_places_join` — different names in one directory.
-/

namespace IncrementalBuild

namespace Path

variable {p : Path} {dir : Option (List Char)} {name : List Char}

/-- The file name of a path with a name is that name. -/
theorem Named.fileName?_eq (h : p.Named dir name) (hname : IsName name) :
    (p.components.getLast?.bind Component.name?) = some name := by
  have htext := fileNameOf?_textIn dir hname h.separator
  rwa [← h.text] at htext

/-- Names are read in a directory in one way. -/
theorem exists_named_join (dir : Path) : ∃ folder : Option (List Char),
    ∀ name : String, '/' ∉ name.toList → (dir.join ⟨name⟩).Named folder name.toList := by
  have hrelative {name : String} (hname : '/' ∉ name.toList) : name.toList.head? ≠ some '/' :=
    fun hhead => hname (List.mem_of_mem_head? hhead)
  by_cases hnil : dir.text.toList = []
  · refine ⟨none, fun name hname => ⟨?_, hname⟩⟩
    simp [join, joinText, hrelative hname, hnil, textIn]
  · by_cases hlast : dir.text.toList.getLast? = some '/'
    · obtain ⟨above, habove⟩ := List.getLast?_eq_some_iff.mp hlast
      refine ⟨some above, fun name hname => ⟨?_, hname⟩⟩
      simp [join, joinText, hrelative hname, habove, textIn]
    · refine ⟨some dir.text.toList, fun name hname => ⟨?_, hname⟩⟩
      simp [join, joinText, hrelative hname, hnil, hlast, textIn]

/-- A name among the steps of a text has no separator. -/
theorem not_mem_of_name_mem {cs : List Char} (h : .name name ∈ stepsOf cs) : '/' ∉ name := by
  obtain ⟨segment, hsegment, hof⟩ := List.mem_filterMap.mp h
  have heq : segment = name := by
    unfold Component.ofSegment? at hof
    split at hof <;> simp_all
  intro hmem
  exact absurd (Blank.eq_false_of_mem_pieces hsegment (heq ▸ hmem)) (by simp)

/-- The file name of a path has no separator. -/
theorem not_mem_fileName? {text : String} (h : p.fileName? = some text) : '/' ∉ text.toList := by
  obtain ⟨name, hname, rfl⟩ := Option.map_eq_some_iff.mp h
  obtain ⟨component, hlast, hcomponent⟩ := Option.bind_eq_some_iff.mp hname
  rw [String.toList_ofList]
  cases component with
  | name other =>
      obtain rfl := Option.some.inj hcomponent
      have hstep : .name other ∈ stepsOf p.text.toList := by
        rw [stepsOf_eq_filter, List.mem_filter]
        exact ⟨List.mem_of_getLast? hlast, by simp⟩
      exact not_mem_of_name_mem hstep
  | _ => exact absurd hcomponent (by simp [Component.name?])

/-- **Different names** in one directory make paths that are apart. -/
theorem apart_join (dir : Path) {names : List String}
    (hnames : ∀ name ∈ names, '/' ∉ name.toList ∧ IsName name.toList) (hnodup : names.Nodup) :
    Apart (names.map fun name => dir.join ⟨name⟩) := by
  obtain ⟨folder, hfolder⟩ := exists_named_join dir
  refine List.Nodup.of_map (fun cs => cs.getLast?.bind Component.name?) ?_
  have hlast : ((names.map fun name => dir.join ⟨name⟩).map components).map
      (fun cs => cs.getLast?.bind Component.name?) = names.map fun name => some name.toList := by
    rw [List.map_map, List.map_map]
    refine List.map_congr_left fun name hname => ?_
    obtain ⟨hsep, hisName⟩ := hnames name hname
    exact (hfolder name hsep).fileName?_eq hisName
  rw [hlast]
  exact hnodup.map fun a b hab => String.toList_inj.mp (Option.some.inj hab)

end Path

/-- **Different names** in one directory name different places. -/
theorem Files.nodup_places_join (fs : Files) (dir : Path) {names : List String}
    (hnames : ∀ name ∈ names, '/' ∉ name.toList ∧ Path.IsName name.toList)
    (hnodup : names.Nodup) : (names.map fun name => fs.place (dir.join ⟨name⟩)).Nodup := by
  obtain ⟨folder, hfolder⟩ := Path.exists_named_join dir
  refine (List.nodup_map_iff_inj_on hnodup).mpr fun a ha b hb hab => ?_
  obtain ⟨hasep, haname⟩ := hnames a ha
  obtain ⟨hbsep, -⟩ := hnames b hb
  by_contra hne
  exact place_ne (hfolder b hbsep) (hfolder a hasep) haname
    (fun h => hne (String.toList_inj.mp h.symm)) hab.symm

end IncrementalBuild
