import IncrementalBuild.Proofs.Host.Save
import IncrementalBuild.Proofs.Path.Names
/-!
# What operations on files leave alone

An operation on files changes what stands at the places that its paths name, and may make
directories; everything else stays where it is, and so do the paths that lead there.

## Main definitions

* `Files.place` — the place that a path names, whether or not anything stands there.
* `Files.Spares` — a tree keeps another one's directories, and whatever stands outside of some
  places.
* `Files.Leads` — the directory of a path exists.
* `Files.Makes` — a tree with directories that were made for a path.

## Main results

* `Files.place_ne` — paths with different names in one directory name different places.
* `Files.Spares.contentsOf?_eq_some` — files at other places show what they showed.
* `Files.spares_write`, `Files.spares_remove`, `Files.makes_createDirectories` — the places that
  each operation may change.
* `Files.create_eq_ok`, `Files.append_eq_ok`, `Files.rename_eq_ok` — what the steps that fill a file
  leave at its place.
-/

namespace IncrementalBuild.Files

variable {fs a b c : Files} {p q : Path} {loc next : Location} {places : List Location}
  {dir : Option (List Char)} {name other : List Char}

/-! ### Places of paths -/

/-- The place that a path names. -/
def place (fs : Files) (p : Path) : Location :=
  destination (fs.start p.text.toList) (Path.stepsOf p.text.toList)

/-- The place that a directory text names. -/
def folder (fs : Files) : Option (List Char) → Location
  | none => fs.workDir
  | some dir => destination (fs.start (dir ++ ['/'])) (Path.stepsOf dir)

/-- Seen from one work directory, a path names one place. -/
theorem place_congr (h : a.workDir = b.workDir) (p : Path) : a.place p = b.place p := by
  rw [place, place, start, start, h]

/-- A path names what its last name names from its directory. -/
theorem place_eq_destination (h : p.Named dir name) :
    fs.place p = destination (fs.folder dir) (Component.ofSegment? name).toList := by
  have hsteps : Path.stepsOf name = (Component.ofSegment? name).toList := by
    rw [Path.stepsOf, Path.segments_of_not_mem h.separator, List.filterMap_cons]
    cases Component.ofSegment? name <;> rfl
  cases dir with
  | none =>
      have hhead : name.head? ≠ some '/' := fun hhead =>
        h.separator (List.mem_of_mem_head? hhead)
      rw [place, h.text, Path.textIn, hsteps, start, if_neg hhead]
      rfl
  | some dir =>
      have hstart : fs.start (dir ++ '/' :: name) = fs.start (dir ++ ['/']) := by
        cases dir <;> rfl
      rw [place, h.text, Path.textIn, Path.stepsOf_append_slash, hsteps, hstart, destination,
        List.foldl_append]
      rfl

/-- A path names the place of its name in its directory. -/
theorem place_of_named (h : p.Named dir name) (hname : Path.IsName name) :
    fs.place p = fs.folder dir ++ [String.ofList name] := by
  rw [place_eq_destination h, hname.ofSegment?]
  rfl

/-- A path names no place that a path with another name in its directory names. -/
theorem place_ne (hq : q.Named dir other) (hp : p.Named dir name) (hname : Path.IsName name)
    (hne : other ≠ name) : fs.place q ≠ fs.place p := by
  rw [place_of_named hp hname, place_eq_destination hq]
  rw [Component.ofSegment?.eq_def]
  split
  · simp [destination]
  · simp [destination]
  · intro heq
    have hlength := congrArg List.length heq
    simp only [destination, follow, Option.toList_some, List.foldl_cons, List.foldl_nil,
      List.length_append, List.length_singleton, List.length_dropLast] at hlength
    omega
  · intro heq
    have hlast : String.ofList _ = String.ofList name :=
      List.head_eq_of_cons_eq (List.append_cancel_left heq)
    exact hne (by simpa using congrArg String.toList hlast)

/-- The temporary file of a path is at another place. -/
theorem place_temporary_ne (fs : Files) (p : Path) :
    fs.place (Publish.temporary p) ≠ fs.place p := by
  obtain ⟨dir, name, hp⟩ := Path.exists_named p
  exact (place_ne hp hp.temporary (Path.isName_append name (by decide))
    (Path.append_ne_self (by decide)).symm).symm

/-- A path names another place than the file of a path it is clear of, and than its temporary
file. -/
theorem place_not_mem (h : q.ClearOf p) :
    fs.place q ∉ [fs.place p, fs.place (Publish.temporary p)] := by
  obtain ⟨dir, name, other, hq, hp, hother, hne, htemporary⟩ := h
  have hnew : Path.IsName (other ++ Path.temporarySuffix) := Path.isName_append other (by decide)
  simp only [List.mem_cons, List.not_mem_nil, or_false, not_or]
  exact ⟨place_ne hq hp hother hne, place_ne hq hp.temporary hnew htemporary⟩

/-- A path names another place than a path it is clear of. -/
theorem place_not_mem_singleton (h : q.ClearOf p) : fs.place q ∉ [fs.place p] :=
  fun hmem => place_not_mem h (List.mem_cons.mpr (.inl (List.mem_singleton.mp hmem)))

/-- A path that can be looked up is looked up by its text. -/
theorem checkPath_eq_ok {cs : List Char} (h : checkPath p = .ok cs) :
    cs = p.text.toList ∧ cs ≠ [] := by
  rw [checkPath] at h
  split at h
  · exact absurd h (by simp)
  · split at h
    · exact absurd h (by simp)
    · next hnil =>
      split at h
      · exact absurd h (by simp)
      · obtain rfl := Except.ok.inj h
        exact ⟨rfl, hnil⟩

/-- Paths that can be looked up are free of NUL, not empty, and not too long. -/
theorem checkPath_iff : checkPath p = .ok p.text.toList ↔
    '\x00' ∉ p.text.toList ∧ p.text.toList ≠ [] ∧ Path.byteLength p.text.toList < maxPath := by
  rw [checkPath]
  split
  · next hnul => simp [hnul]
  · next hnul =>
      split
      · next hnil => simp [hnil]
      · next hnil =>
          split
          · next hlong => simp [Nat.not_lt.mpr hlong]
          · next hshort => simp [hnul, hnil, Nat.lt_of_not_le hshort]

/-- The last step of a path that has a name is the name. -/
theorem getLast?_steps (h : p.Named dir name) (hne : name ≠ []) :
    (steps p.text.toList).getLast? = some name := by
  rw [steps, h.text, Path.segments_textIn dir h.separator, List.filter_append]
  simp [hne]

/-! ### Trees that keep others -/

/-- A tree seen from the same work directory that has all directories of another one, and outside
of some places whatever stands there; it may have more directories. -/
structure Spares (places : List Location) (a b : Files) : Prop where
  workDir : a.workDir = b.workDir
  directories : ∀ loc, a.isDirectoryAt loc = true → b.isDirectoryAt loc = true
  elsewhere : ∀ loc, loc ∉ places →
    b.at? loc = a.at? loc ∨ a.at? loc = none ∧ b.at? loc = some .directory

namespace Spares

/-- A tree keeps itself. -/
theorem refl (places : List Location) (fs : Files) : Spares places fs fs :=
  ⟨rfl, fun _ h => h, fun _ _ => .inl rfl⟩

/-- What is kept is kept outside of more places. -/
theorem mono {more : List Location} (h : Spares places a b) (hmore : places ⊆ more) :
    Spares more a b :=
  ⟨h.workDir, h.directories, fun loc hloc => h.elsewhere loc fun hmem => hloc (hmore hmem)⟩

/-- What is kept twice is kept. -/
theorem trans (h : Spares places a b) (h' : Spares places b c) : Spares places a c := by
  refine ⟨h.workDir.trans h'.workDir, fun loc hloc => h'.directories loc (h.directories loc hloc),
    fun loc hloc => ?_⟩
  rcases h'.elsewhere loc hloc with heq' | ⟨hnone', hdir'⟩
  · rw [heq']
    exact h.elsewhere loc hloc
  · rcases h.elsewhere loc hloc with heq | ⟨-, hdir⟩
    · exact .inr ⟨heq.symm.trans hnone', hdir'⟩
    · rw [hnone'] at hdir
      exact absurd hdir (by simp)

/-- A file outside of the places stays as it is, and no other comes. -/
theorem contentsAt?_eq (h : Spares places a b) (hloc : loc ∉ places) :
    b.contentsAt? loc = a.contentsAt? loc := by
  rcases h.elsewhere loc hloc with heq | ⟨hnone, hdir⟩
  · rw [contentsAt?, contentsAt?, heq]
  · rw [contentsAt?, contentsAt?, hnone, hdir]

end Spares

/-! ### Paths into directories that exist -/

/-- Steps are taken from directories. -/
theorem isDirectoryAt_of_stepTo {segment : List Char} (h : fs.stepTo loc segment = .ok next) :
    fs.isDirectoryAt loc = true := by
  rw [stepTo] at h
  split at h
  · exact absurd h (by simp)
  · next hdir => simpa using hdir

/-- A step goes to the same place from a directory of any tree. -/
theorem stepTo_of_directory {segment : List Char} (h : a.stepTo loc segment = .ok next)
    (hb : b.isDirectoryAt loc = true) : b.stepTo loc segment = .ok next := by
  have ha := isDirectoryAt_of_stepTo h
  rw [stepTo, ha] at h
  rw [stepTo, hb]
  exact h

/-- A walk to a directory goes through directories, so it ends there in every tree that has
them. -/
theorem walk_of_directories
    (hdirs : ∀ loc, a.isDirectoryAt loc = true → b.isDirectoryAt loc = true)
    {parts : List (List Char)} (hwalk : a.walk loc parts = .ok next)
    (hdir : a.isDirectoryAt next = true) : b.walk loc parts = .ok next := by
  induction parts generalizing loc with
  | nil => exact hwalk
  | cons segment rest ih =>
      rw [Files.walk] at hwalk
      split at hwalk
      · exact absurd hwalk (by simp)
      · next mid hmid =>
        split at hwalk
        · have hmiddir : a.isDirectoryAt mid = true := by
            cases rest with
            | nil =>
                obtain rfl := Except.ok.inj hwalk
                exact hdir
            | cons second rest =>
                rw [Files.walk] at hwalk
                split at hwalk
                · exact absurd hwalk (by simp)
                · next hstep => exact isDirectoryAt_of_stepTo hstep
          have hsome : (b.at? mid).isSome = true := by
            have hb := hdirs mid hmiddir
            rw [isDirectoryAt, beq_iff_eq] at hb
            rw [hb]
            rfl
          rw [Files.walk, stepTo_of_directory hmid (hdirs loc (isDirectoryAt_of_stepTo hmid))]
          dsimp only
          rw [if_pos hsome]
          exact ih hwalk
        · exact absurd hwalk (by simp)

/-- The directory of a path exists, and in it the path names a place. -/
structure Leads (fs : Files) (p : Path) (loc : Location) : Prop where
  check : checkPath p = .ok p.text.toList
  separated : endsInSeparator p.text.toList = false
  step : ∃ mid segment, fs.walk (fs.start p.text.toList) (steps p.text.toList).dropLast = .ok mid ∧
    (steps p.text.toList).getLast? = some segment ∧ fs.stepTo mid segment = .ok loc

/-- A walk goes on from where its first part ends. -/
theorem walk_append {start mid : Location} {parts : List (List Char)}
    (hwalk : fs.walk start parts = .ok mid) (more : List (List Char)) :
    fs.walk start (parts ++ more) = fs.walk mid more := by
  induction parts generalizing start with
  | nil =>
      obtain rfl := Except.ok.inj hwalk
      rfl
  | cons first rest ih =>
      rw [walk] at hwalk
      split at hwalk
      · exact absurd hwalk (by simp)
      · next place hplace =>
        split at hwalk
        · next hplaced =>
          rw [List.cons_append, walk, hplace]
          dsimp only
          rw [if_pos hplaced]
          exact ih hwalk
        · exact absurd hwalk (by simp)

/-- The segments of a path are those of its directory and the last one. -/
theorem steps_eq {segment : List Char} (h : (steps p.text.toList).getLast? = some segment) :
    steps p.text.toList = (steps p.text.toList).dropLast ++ [segment] :=
  (List.dropLast_append_getLast? segment h).symm

/-- The steps of a path lead to the place that it names. -/
theorem eq_place_of_stepTo {mid : Location} {segment : List Char}
    (hwalk : fs.walk (fs.start p.text.toList) (steps p.text.toList).dropLast = .ok mid)
    (hlast : (steps p.text.toList).getLast? = some segment)
    (hstep : fs.stepTo mid segment = .ok loc) : loc = fs.place p := by
  have hsteps := steps_eq hlast
  have hnil : [] ∉ (steps p.text.toList).dropLast ++ [segment] := by
    rw [← hsteps]
    simp [steps]
  rw [List.mem_append, not_or, List.mem_singleton] at hnil
  rw [stepTo_eq_ok (Ne.symm hnil.2) hstep, walk_eq_ok hnil.1 hwalk, place, ← filterMap_steps,
    hsteps, List.filterMap_append, List.dropLast_concat, destination, destination, destination,
    List.foldl_append]
  cases hsegment : Component.ofSegment? segment <;> simp [hsegment]

namespace Leads

/-- A path leads to the place that it names. -/
theorem eq_place (h : Leads fs p loc) : loc = fs.place p := by
  obtain ⟨mid, segment, hwalk, hlast, hstep⟩ := h.step
  exact eq_place_of_stepTo hwalk hlast hstep

/-- A path that leads to a place finds what stands there. -/
theorem locate_eq (h : Leads fs p loc) :
    fs.locate p = if (fs.at? loc).isSome then .ok loc else .error .notFound := by
  obtain ⟨mid, segment, hwalk, hlast, hstep⟩ := h.step
  have hwhole : fs.walk (fs.start p.text.toList) (steps p.text.toList) =
      if (fs.at? loc).isSome then .ok loc else .error .notFound := by
    rw [steps_eq hlast, walk_append hwalk, walk, hstep]
    rfl
  rw [Files.locate, h.check]
  simp only [bind, Except.bind]
  rw [hwhole, h.separated]
  cases (fs.at? loc).isSome <;> rfl

/-- Where something stands, a path that leads there finds it. -/
theorem locate (h : Leads fs p loc) (hsome : (fs.at? loc).isSome = true) :
    fs.locate p = .ok loc := by
  rw [h.locate_eq, if_pos hsome]

/-- So it shows what stands there. -/
theorem stat_eq (h : Leads fs p loc) :
    fs.stat p = match fs.at? loc with
      | some e => .ok e
      | none => .error .notFound := by
  rw [stat, h.locate_eq]
  cases hat : fs.at? loc with
  | none => rfl
  | some e =>
      simp only [Option.isSome_some, if_true, bind, Except.bind]
      rw [hat]

/-- A path leads to the same place in a tree that has the directories. -/
theorem of_directories (h : Leads a p loc) (hworkDir : a.workDir = b.workDir)
    (hdirs : ∀ loc, a.isDirectoryAt loc = true → b.isDirectoryAt loc = true) : Leads b p loc := by
  obtain ⟨mid, segment, hwalk, hlast, hstep⟩ := h.step
  have hmid := isDirectoryAt_of_stepTo hstep
  have hstart : a.start p.text.toList = b.start p.text.toList := by
    rw [start, start, hworkDir]
  refine ⟨h.check, h.separated, mid, segment, ?_, hlast,
    stepTo_of_directory hstep (hdirs mid hmid)⟩
  rw [← hstart]
  exact walk_of_directories hdirs hwalk hmid

/-- So it does in a tree that spares the directories. -/
theorem spares (h : Leads a p loc) (hab : Spares places a b) : Leads b p loc :=
  h.of_directories hab.workDir hab.directories

end Leads

/-- A path with a last segment leads to the file that it is found to name. -/
theorem leads_of_locate {segment : List Char} (hp : fs.locate p = .ok loc)
    (hdir : fs.isDirectoryAt loc = false)
    (hlast : (steps p.text.toList).getLast? = some segment) : Leads fs p loc := by
  obtain ⟨cs, hcheck, hwalk⟩ := walk_of_locate hp
  obtain ⟨rfl, -⟩ := checkPath_eq_ok hcheck
  have hseparated : endsInSeparator p.text.toList = false := by
    rw [Files.locate, hcheck] at hp
    simp only [bind, Except.bind, hwalk, hdir] at hp
    by_contra hends
    rw [Bool.not_eq_false] at hends
    rw [hends] at hp
    exact absurd hp (by simp)
  rw [steps_eq hlast] at hwalk
  obtain ⟨mid, hmid, hstep⟩ := exists_of_walk_concat hwalk
  exact ⟨hcheck, hseparated, mid, segment, hmid, hlast, hstep⟩

/-- A place with a file is taken, and by no directory. -/
theorem at?_of_contentsAt? (hfile : (fs.contentsAt? loc).isSome = true) :
    (fs.at? loc).isSome = true ∧ fs.isDirectoryAt loc = false := by
  rw [contentsAt?] at hfile
  split at hfile
  · next hat =>
    rw [isDirectoryAt, hat]
    exact ⟨rfl, rfl⟩
  · exact absurd hfile (by simp)

/-- A path that leads to a file still leads there in a tree that keeps the file. -/
theorem Spares.locate (h : Spares places a b) (hp : a.locate p = .ok loc)
    (hfile : (a.contentsAt? loc).isSome = true) (hloc : loc ∉ places) : b.locate p = .ok loc := by
  obtain ⟨-, hdir⟩ := at?_of_contentsAt? hfile
  rw [← h.contentsAt?_eq hloc] at hfile
  obtain ⟨hsome, hdir'⟩ := at?_of_contentsAt? hfile
  cases hlast : (steps p.text.toList).getLast? with
  | some segment => exact ((leads_of_locate hp hdir hlast).spares h).locate hsome
  | none =>
      -- The path names the directory where it starts.
      obtain ⟨cs, hcheck, hwalk⟩ := walk_of_locate hp
      obtain ⟨rfl, -⟩ := checkPath_eq_ok hcheck
      have hstart : a.start p.text.toList = b.start p.text.toList := by
        rw [start, start, h.workDir]
      rw [Files.locate, hcheck] at hp ⊢
      simp only [bind, Except.bind, hwalk, hdir] at hp
      rw [List.getLast?_eq_none_iff] at hlast
      rw [hlast] at hwalk
      obtain rfl := Except.ok.inj hwalk
      simp only [bind, Except.bind, hlast, Files.walk, ← hstart, hdir']
      exact hp

/-- **Files at other places** show what they showed, to every path that leads there. -/
theorem Spares.contentsOf?_eq_some {contents : Bytes} (h : Spares places a b)
    (hp : a.contentsOf? p = some contents) (hloc : a.place p ∉ places) :
    b.contentsOf? p = some contents := by
  obtain ⟨loc, hlocate, hcontents, -⟩ := Files.contentsOf?_eq_some hp
  obtain rfl : loc = a.place p := locate_eq_ok hlocate
  have hfile : (a.contentsAt? (a.place p)).isSome = true := by
    rw [hcontents]
    rfl
  refine contentsOf?_of_locate (h.locate hlocate hfile hloc) ?_
  rw [h.contentsAt?_eq hloc]
  exact hcontents

/-- A file that a path shows in the end stood at its place before, unless the place was changed. -/
theorem Spares.contentsAt?_of_contentsOf? {contents : Bytes} (h : Spares places a b)
    (hp : b.contentsOf? p = some contents) (hloc : a.place p ∉ places) :
    a.contentsAt? (a.place p) = some contents := by
  obtain ⟨loc, hlocate, hcontents, -⟩ := Files.contentsOf?_eq_some hp
  obtain rfl : loc = b.place p := locate_eq_ok hlocate
  rw [← place_congr h.workDir] at hcontents
  rw [← h.contentsAt?_eq hloc]
  exact hcontents

/-! ### Changing one place -/

/-- What stands in a tree after a place was emptied. -/
theorem at?_drop (hloc : loc ≠ []) (other : Location) :
    (fs.drop loc).at? other = if other = loc then none else fs.at? other := by
  rw [at?, at?, drop]
  by_cases h : other = loc
  · subst h
    rw [if_neg hloc, if_pos rfl, List.lookup_eq_none_iff]
    intro x hx
    have hne := (List.mem_filter.mp hx).2
    rw [bne_iff_ne] at hne ⊢
    exact Ne.symm hne
  · rw [if_neg h]
    dsimp only
    rw [lookup_filter_ne h]

/-- The root is a directory. -/
theorem ne_nil_of_isDirectoryAt (h : fs.isDirectoryAt loc = false) : loc ≠ [] := by
  rintro rfl
  exact absurd h (by simp [isDirectoryAt, at?])

/-- A new directory takes nobody's place. -/
theorem spares_put_directory (hnone : fs.at? loc = none) :
    Spares [] fs (fs.put loc .directory) := by
  have hloc : loc ≠ [] := ne_nil_of_isDirectoryAt (by rw [isDirectoryAt, hnone]; rfl)
  refine ⟨rfl, fun other hother => ?_, fun other _ => ?_⟩
  · rw [isDirectoryAt, at?_put hloc]
    split
    · rfl
    · exact hother
  · rw [at?_put hloc]
    split
    · next heq => exact .inr ⟨heq ▸ hnone, rfl⟩
    · exact .inl rfl

/-- A tree in which one place that was no directory has other things. -/
theorem spares_of_at? (hdir : fs.isDirectoryAt loc = false) (hworkDir : a.workDir = fs.workDir)
    (hat : ∀ other, other ≠ loc → a.at? other = fs.at? other) : Spares [loc] fs a := by
  refine ⟨hworkDir.symm, fun other hother => ?_, fun other hother => .inl (hat other ?_)⟩
  · have hne : other ≠ loc := by
      rintro rfl
      exact absurd (hdir.symm.trans hother) (by simp)
    rw [isDirectoryAt, hat other hne]
    exact hother
  · simpa using hother

/-- Writing a file leaves other places as they are. -/
theorem at?_putFile_of_ne (hdir : fs.isDirectoryAt loc = false) (contents : Bytes)
    {other : Location} (hne : other ≠ loc) :
    (fs.putFile loc contents).at? other = fs.at? other := by
  have hat (e : Entry) : (fs.put loc e).at? other = if other = loc then some e else fs.at? other :=
    at?_put (ne_nil_of_isDirectoryAt hdir) e other
  exact (hat _).trans (if_neg hne)

/-- What stands in a tree after a file was written. -/
theorem at?_putFile (hdir : fs.isDirectoryAt loc = false) (contents : Bytes) :
    (∃ executable, (fs.putFile loc contents).at? loc = some (.file contents fs.clock executable)) ∧
      Spares [loc] fs (fs.putFile loc contents) := by
  have hat (e : Entry) : (fs.put loc e).at? loc = if loc = loc then some e else fs.at? loc :=
    at?_put (ne_nil_of_isDirectoryAt hdir) e loc
  exact ⟨⟨_, (hat _).trans (if_pos rfl)⟩,
    spares_of_at? hdir rfl fun _ => at?_putFile_of_ne hdir contents⟩

/-- Emptying a place that is no directory changes that place only. -/
theorem spares_drop (hdir : fs.isDirectoryAt loc = false) : Spares [loc] fs (fs.drop loc) :=
  spares_of_at? hdir rfl fun other hother =>
    (at?_drop (ne_nil_of_isDirectoryAt hdir) other).trans (if_neg hother)

/-! ### Operations -/

/-- What a target says of its path. -/
structure TargetOf (fs : Files) (p : Path) (t : Target) : Prop where
  check : checkPath p = .ok p.text.toList
  ne_nil : p.text.toList ≠ []
  walk : fs.walk (fs.start p.text.toList) (steps p.text.toList).dropLast = .ok t.directory
  last : t.last = (steps p.text.toList).getLast?
  separated : t.separated = endsInSeparator p.text.toList

/-- The target of a path. -/
theorem target_eq_ok {t : Target} (h : fs.target p = .ok t) : TargetOf fs p t := by
  obtain ⟨cs, hcheck, h⟩ := exists_of_bind h
  obtain ⟨rfl, hnil⟩ := checkPath_eq_ok hcheck
  obtain ⟨directory, hwalk, h⟩ := exists_of_bind h
  split at h
  · obtain rfl := Except.ok.inj h
    exact ⟨hcheck, hnil, hwalk, rfl, rfl⟩
  · exact absurd h (by simp)

/-- The name of a target is its last segment, and none of the dots. -/
theorem Target.last_of_name? {t : Target} {segment : List Char} (h : t.name? = some segment) :
    t.last = some segment ∧ segment ≠ ['.'] ∧ segment ≠ ['.', '.'] := by
  rw [Target.name?] at h
  split at h
  · exact absurd h (by simp)
  · exact absurd h (by simp)
  · exact absurd h (by simp)
  · next hhere hup hlast =>
    obtain rfl := Option.some.inj h
    exact ⟨hlast, hhere, hup⟩

namespace TargetOf

variable {t : Target} {segment : List Char}

/-- A path that ends in a name has it as its last name. -/
theorem named (h : TargetOf fs p t) (hname : t.name? = some segment)
    (hseparated : t.separated = false) : Path.IsName segment ∧ ∃ dir, p.Named dir segment := by
  obtain ⟨hlast, hhere, hup⟩ := Target.last_of_name? hname
  have hsteps := h.last.symm.trans hlast
  have hne : segment ≠ [] := by
    have hmem := List.mem_of_getLast? hsteps
    simpa [steps] using (List.mem_filter.mp hmem).2
  obtain ⟨dir, name, hp⟩ := Path.exists_named p
  have hname' : name ≠ [] := by
    rintro rfl
    have htext := hp.text
    cases dir with
    | none => exact h.ne_nil htext
    | some dir =>
        rw [h.separated, endsInSeparator, htext, Path.textIn, List.getLast?_concat] at hseparated
        exact absurd hseparated (by simp)
  obtain rfl : name = segment :=
    Option.some.inj ((getLast?_steps hp hname').symm.trans hsteps)
  exact ⟨⟨hne, hhere, hup⟩, dir, hp⟩

/-- The step to the name of a path goes to the path's place. -/
theorem eq_place (h : TargetOf fs p t) (hname : t.name? = some segment)
    (hstep : fs.stepTo t.directory segment = .ok loc) : loc = fs.place p :=
  eq_place_of_stepTo h.walk (h.last.symm.trans (Target.last_of_name? hname).1) hstep

/-- The directory of a path with a name exists. -/
theorem leads (h : TargetOf fs p t) (hname : t.name? = some segment)
    (hseparated : t.separated = false) (hstep : fs.stepTo t.directory segment = .ok loc) :
    Leads fs p loc :=
  ⟨h.check, h.separated.symm.trans hseparated, t.directory, segment, h.walk,
    h.last.symm.trans (Target.last_of_name? hname).1, hstep⟩

end TargetOf

/-- A path at which a file can be put: it names a place in a directory that exists. -/
structure Open (fs : Files) (p : Path) : Prop where
  named : p.HasName
  leads : Leads fs p (fs.place p)
  free : fs.isDirectoryAt (fs.place p) = false

/-- Which paths a file can be put at is a matter of the directories. -/
theorem open_congr (hworkDir : a.workDir = b.workDir)
    (hdirs : ∀ loc, a.isDirectoryAt loc = b.isDirectoryAt loc) : Open a p ↔ Open b p := by
  have hplace := place_congr hworkDir p
  constructor <;> rintro ⟨hname, hleads, hfree⟩
  · exact ⟨hname, hplace ▸ hleads.of_directories hworkDir fun loc => (hdirs loc).symm.trans,
      by rw [← hplace, ← hdirs, hfree]⟩
  · exact ⟨hname, hplace ▸ hleads.of_directories hworkDir.symm fun loc => (hdirs loc).trans,
      by rw [hplace, hdirs, hfree]⟩

/-- A file that is written is put at the place of its path. -/
theorem writable_eq_ok (h : fs.writable p = .ok loc) : loc = fs.place p ∧ Open fs p := by
  obtain ⟨t, ht, h⟩ := exists_of_bind h
  have htarget := target_eq_ok ht
  split at h
  · exact absurd h (by simp)
  · next segment hname =>
    obtain ⟨⟨place, entry⟩, hentry, h⟩ := exists_of_bind h
    obtain ⟨next, hstep, hentry⟩ := exists_of_bind hentry
    obtain ⟨rfl, rfl⟩ := Prod.mk.inj (Except.ok.inj hentry)
    dsimp only at h
    split at h
    · exact absurd h (by simp)
    · next hseparated =>
      rw [Bool.not_eq_true] at hseparated
      obtain ⟨hsegment, dir, hp⟩ := htarget.named hname hseparated
      have hleads := htarget.leads hname hseparated hstep
      obtain rfl := hleads.eq_place
      have hfree : fs.isDirectoryAt (fs.place p) = false := by
        rw [isDirectoryAt]
        by_contra hdir
        rw [Bool.not_eq_false, beq_iff_eq] at hdir
        rw [hdir] at h
        exact absurd h (by simp)
      refine ⟨?_, ⟨dir, segment, hp, hsegment⟩, hleads, hfree⟩
      split at h
      · exact absurd h (by simp)
      · exact absurd h (by simp)
      · exact (Except.ok.inj h).symm

/-- A file that is created stands empty at the place of its path. -/
theorem create_eq_ok (h : fs.create p = .ok a) :
    Spares [fs.place p] fs a ∧ a.contentsAt? (fs.place p) = some [] := by
  obtain ⟨loc, hloc, h⟩ := exists_of_bind h
  obtain ⟨rfl, hopen⟩ := writable_eq_ok hloc
  obtain rfl := Except.ok.inj h
  obtain ⟨⟨executable, hat⟩, hspares⟩ := at?_putFile hopen.free []
  exact ⟨hspares, by rw [contentsAt?, hat]⟩

/-- A file that was written stands at the place of its path. -/
theorem write_eq_ok {contents : Bytes} (h : fs.write p contents = .ok a) :
    Open fs p ∧ a = fs.putFile (fs.place p) contents := by
  obtain ⟨loc, hloc, h⟩ := exists_of_bind h
  obtain ⟨rfl, hopen⟩ := writable_eq_ok hloc
  exact ⟨hopen, (Except.ok.inj h).symm⟩

/-- What is written at the end of a file comes after its contents. -/
theorem append_eq_ok {old more : Bytes} (h : fs.append p more = .ok a)
    (hold : fs.contentsAt? (fs.place p) = some old) :
    Spares [fs.place p] fs a ∧
      ∃ time executable, a.at? (fs.place p) = some (.file (old ++ more) time executable) := by
  obtain ⟨loc, hloc, h⟩ := exists_of_bind h
  obtain ⟨rfl, hopen⟩ := writable_eq_ok hloc
  rw [contentsAt?] at hold
  split at hold
  · next contents time executable hat =>
    rw [hat, Option.some.inj hold] at h
    obtain rfl := Except.ok.inj h
    obtain ⟨⟨executable, hput⟩, hspares⟩ := at?_putFile hopen.free (old ++ more)
    exact ⟨hspares, _, executable, hput⟩
  · exact absurd hold (by simp)

/-- Writing changes the place of the path only. -/
theorem spares_write {contents : Bytes} (h : fs.write p contents = .ok a) :
    Spares [fs.place p] fs a := by
  obtain ⟨hopen, rfl⟩ := write_eq_ok h
  exact (at?_putFile hopen.free contents).2

/-- A file that is moved is taken from the place of one path and put at that of the other. -/
theorem rename_eq_ok {contents : Bytes} {time : Timestamp} {executable : Bool}
    (h : fs.rename p q = .ok a)
    (hfile : fs.at? (fs.place p) = some (.file contents time executable))
    (hne : fs.place p ≠ fs.place q) :
    Open fs q ∧ a = (fs.drop (fs.place p)).put (fs.place q) (.file contents time executable) := by
  obtain ⟨s, hs, h⟩ := exists_of_bind h
  obtain ⟨d, hd, h⟩ := exists_of_bind h
  split at h
  · next sourceName destinationName hsource hdestination =>
    obtain ⟨⟨source, entry⟩, hentry, h⟩ := exists_of_bind h
    obtain ⟨next, hstep, hentry⟩ := exists_of_bind hentry
    obtain ⟨rfl, rfl⟩ := Prod.mk.inj (Except.ok.inj hentry)
    obtain ⟨⟨destination, taken⟩, hentry, h⟩ := exists_of_bind h
    obtain ⟨next', hstep', hentry⟩ := exists_of_bind hentry
    obtain ⟨rfl, rfl⟩ := Prod.mk.inj (Except.ok.inj hentry)
    have hd := target_eq_ok hd
    obtain rfl := (target_eq_ok hs).eq_place hsource hstep
    obtain rfl := hd.eq_place hdestination hstep'
    dsimp only at h
    rw [hfile] at h
    dsimp only at h
    split at h
    · exact absurd h (by simp)
    · next hseparated =>
      split at h
      · exact absurd h (by simp)
      · next hfree =>
        have hseparated : d.separated = false := by
          by_contra hends
          rw [Bool.not_eq_false] at hends
          exact hseparated ⟨by simp, .inr hends⟩
        have hfree : fs.isDirectoryAt (fs.place q) = false := by
          rw [isDirectoryAt, beq_eq_false_iff_ne]
          exact fun hdir => hfree ⟨by simp, hdir⟩
        obtain ⟨hname, dir, hq⟩ := hd.named hdestination hseparated
        exact ⟨⟨⟨dir, _, hq, hname⟩, hd.leads hdestination hseparated hstep', hfree⟩,
          (Except.ok.inj h).symm⟩
  · exact absurd h (by simp)

/-- Moving a file leaves the work directory. -/
theorem workDir_rename (h : fs.rename p q = .ok a) : a.workDir = fs.workDir := by
  obtain ⟨s, -, h⟩ := exists_of_bind h
  obtain ⟨d, -, h⟩ := exists_of_bind h
  split at h
  · obtain ⟨⟨source, entry⟩, -, h⟩ := exists_of_bind h
    obtain ⟨⟨destination, taken⟩, -, h⟩ := exists_of_bind h
    dsimp only at h
    split at h
    · exact absurd h (by simp)
    · split at h
      · exact absurd h (by simp)
      · split at h
        · rw [Except.ok.inj h]
        · split at h
          · exact absurd h (by simp)
          · rw [← Except.ok.inj h]
            rfl
  · exact absurd h (by simp)

/-- A file that is removed is taken from the place of its path. -/
theorem remove_eq_ok (h : fs.remove p = .ok a) :
    fs.isDirectoryAt (fs.place p) = false ∧ a = fs.drop (fs.place p) := by
  obtain ⟨t, ht, h⟩ := exists_of_bind h
  have htarget := target_eq_ok ht
  split at h
  · exact absurd h (by simp)
  · next segment hname =>
    obtain ⟨⟨place, entry⟩, hentry, h⟩ := exists_of_bind h
    obtain ⟨next, hstep, hentry⟩ := exists_of_bind hentry
    obtain ⟨rfl, rfl⟩ := Prod.mk.inj (Except.ok.inj hentry)
    obtain rfl := htarget.eq_place hname hstep
    dsimp only at h
    split at h
    · exact absurd h (by simp)
    · exact absurd h (by simp)
    · next hne hat =>
      split at h
      · exact absurd h (by simp)
      · refine ⟨?_, (Except.ok.inj h).symm⟩
        rw [isDirectoryAt, hat, beq_eq_false_iff_ne]
        exact fun hdir => hne (Option.some.inj hdir)

/-- A path with a name that leads somewhere can be taken apart: it names an entry of a directory. -/
theorem target_of_leads (hname : p.HasName) (h : Leads fs p loc) :
    ∃ t name, fs.target p = .ok t ∧ t.name? = some name ∧ t.separated = false ∧
      fs.stepTo t.directory name = .ok loc := by
  obtain ⟨dir, name, hp, hisName⟩ := hname
  have hlast := getLast?_steps hp hisName.ne_nil
  obtain ⟨mid, segment, hwalk, hlast', hstep⟩ := h.step
  obtain rfl := Option.some.inj (hlast.symm.trans hlast')
  refine ⟨⟨mid, some name, false⟩, name, ?_, ?_, rfl, hstep⟩
  · rw [target, h.check]
    simp only [bind, Except.bind, hwalk]
    rw [if_pos (isDirectoryAt_of_stepTo hstep), hlast, h.separated]
  · rw [Target.name?]
    split
    · next heq => exact absurd (Option.some.inj heq) hisName.ne_here
    · next heq => exact absurd (Option.some.inj heq) hisName.ne_up
    · next heq => exact absurd heq (by simp)
    · next heq => exact heq.symm

/-- Where a path with a name leads, files and sockets can be removed. -/
theorem remove_of_leads (hname : p.HasName) (h : Leads fs p loc) :
    fs.remove p = match fs.at? loc with
      | none => .error .notFound
      | some .directory => .error .isADirectory
      | some _ => .ok (fs.drop loc) := by
  obtain ⟨t, segment, htarget, hsegment, hseparated, hstep⟩ := target_of_leads hname h
  rw [remove, htarget]
  simp only [bind, Except.bind, hsegment, entryOf, hstep]
  rw [hseparated]
  rcases fs.at? loc with _ | (_ | _ | _) <;> rfl

/-- A file that a path with a name leads to can be removed. -/
theorem remove_of_contentsOf? {contents : Bytes} (hname : p.HasName)
    (h : fs.contentsOf? p = some contents) : fs.remove p = .ok (fs.drop (fs.place p)) := by
  obtain ⟨loc, hlocate, hcontents, -⟩ := contentsOf?_eq_some h
  obtain rfl : loc = fs.place p := locate_eq_ok hlocate
  obtain ⟨-, hdir⟩ := at?_of_contentsAt? (hcontents ▸ rfl : (fs.contentsAt? (fs.place p)).isSome)
  obtain ⟨dir, name, hp, hisName⟩ := id hname
  have hleads := leads_of_locate hlocate hdir (getLast?_steps hp hisName.ne_nil)
  rw [contentsAt?] at hcontents
  split at hcontents
  · next hat => rw [remove_of_leads hname hleads, hat]
  · exact absurd hcontents (by simp)

/-- Where a path with a name leads, files can be written and new ones made. -/
theorem writable_eq_of_leads (hname : p.HasName) (h : Leads fs p loc) :
    fs.writable p = match fs.at? loc with
      | some .directory => .error .isADirectory
      | some (.socket _) => .error .noSuchDevice
      | _ => .ok loc := by
  obtain ⟨t, segment, htarget, hsegment, hseparated, hstep⟩ := target_of_leads hname h
  rw [writable, htarget]
  simp only [bind, Except.bind, hsegment, entryOf, hstep]
  rw [hseparated]
  rfl

/-- A file that a path with a name leads to can be written to. -/
theorem writable_of_leads (hname : p.HasName) (h : Leads fs p loc)
    (hfile : (fs.contentsAt? loc).isSome = true) : fs.writable p = .ok loc := by
  rw [contentsAt?] at hfile
  split at hfile
  · next hat => rw [writable_eq_of_leads hname h, hat]
  · exact absurd hfile (by simp)

/-- A file can be written where a path leads to neither a directory nor a socket. -/
theorem writable_eq_ok_iff :
    fs.writable p = .ok loc ↔
      loc = fs.place p ∧ Open fs p ∧ ∀ n, fs.at? (fs.place p) ≠ some (.socket n) := by
  constructor
  · intro h
    obtain ⟨rfl, hopen⟩ := writable_eq_ok h
    refine ⟨rfl, hopen, fun n hsocket => ?_⟩
    rw [writable_eq_of_leads hopen.named hopen.leads, hsocket] at h
    exact absurd h (by simp)
  · rintro ⟨rfl, hopen, hsocket⟩
    have hfree := hopen.free
    rw [isDirectoryAt, beq_eq_false_iff_ne] at hfree
    rw [writable_eq_of_leads hopen.named hopen.leads]
    split
    · next hat => exact absurd hat hfree
    · next n hat => exact absurd hat (hsocket n)
    · rfl

/-- A file that was created can be filled. -/
theorem append_of_create (hcreate : fs.create p = .ok a) (contents : Bytes) :
    a.append p contents = .ok (a.putFile (fs.place p) contents) := by
  obtain ⟨hspares, hempty⟩ := create_eq_ok hcreate
  obtain ⟨loc, hwritable, -⟩ := exists_of_bind hcreate
  obtain ⟨rfl, hopen⟩ := writable_eq_ok hwritable
  have hagain := writable_of_leads hopen.named (hopen.leads.spares hspares)
    (hempty ▸ rfl : (a.contentsAt? (fs.place p)).isSome = true)
  rw [append, hagain]
  rw [contentsAt?] at hempty
  split at hempty
  · next hat =>
    obtain rfl := Option.some.inj hempty
    simp only [bind, Except.bind, hat, List.nil_append]
  · exact absurd hempty (by simp)

/-- A file that was created and filled stands at its place, and everything else is as it was. -/
theorem at?_of_append {contents : Bytes} (hcreate : fs.create p = .ok a)
    (happend : a.append p contents = .ok b) :
    b.workDir = fs.workDir ∧
      (∃ time executable, b.at? (fs.place p) = some (.file contents time executable)) ∧
      ∀ other, other ≠ fs.place p → b.at? other = fs.at? other := by
  rw [append_of_create hcreate] at happend
  obtain ⟨loc, hwritable, hcreated⟩ := exists_of_bind hcreate
  obtain ⟨rfl, hopen⟩ := writable_eq_ok hwritable
  obtain rfl := Except.ok.inj hcreated
  obtain rfl := Except.ok.inj happend
  obtain ⟨⟨_, hempty⟩, -⟩ := at?_putFile hopen.free []
  have hfile : (fs.putFile (fs.place p) []).isDirectoryAt (fs.place p) = false := by
    rw [isDirectoryAt, hempty]
    rfl
  obtain ⟨⟨executable, hfull⟩, -⟩ := at?_putFile hfile contents
  refine ⟨rfl, ⟨_, executable, hfull⟩, fun other hother => ?_⟩
  rw [at?_putFile_of_ne hfile contents hother, at?_putFile_of_ne hopen.free [] hother]

/-- A file that a path leads to can be moved to where a file can be put. -/
theorem exists_rename {contents : Bytes} {time : Timestamp} {executable : Bool}
    (hname : p.HasName) (h : Leads fs p loc)
    (hfile : fs.at? loc = some (.file contents time executable)) (hopen : Open fs q) :
    ∃ b, fs.rename p q = .ok b := by
  obtain ⟨s, sourceName, hs, hsource, hsourceEnds, hsourceStep⟩ := target_of_leads hname h
  obtain ⟨d, name, hd, hdestination, hends, hstep⟩ := target_of_leads hopen.named hopen.leads
  have hfree := hopen.free
  rw [isDirectoryAt, beq_eq_false_iff_ne] at hfree
  rw [rename, hs, hd]
  simp only [bind, Except.bind, hsource, hdestination, entryOf, hsourceStep, hstep, hfile]
  rw [if_neg (by simp [hsourceEnds, hends])]
  by_cases hsame : loc = fs.place q
  · exact ⟨fs, if_pos hsame⟩
  · exact ⟨_, by rw [if_neg hsame, if_neg fun hdir => hfree hdir.2]⟩

/-- A file that was removed is not there. -/
theorem contentsOf?_of_remove (h : fs.remove p = .ok a) : a.contentsOf? p = none := by
  obtain ⟨hdir, rfl⟩ := remove_eq_ok h
  have hsame := place_congr (spares_drop hdir).workDir p
  rw [Option.eq_none_iff_forall_ne_some]
  intro contents hcontents
  have hat := (Spares.refl [] _).contentsAt?_of_contentsOf? hcontents (by simp)
  rw [← hsame, contentsAt?, at?_drop (ne_nil_of_isDirectoryAt hdir), if_pos rfl] at hat
  exact absurd hat (by simp)

/-- Removing changes the place of the path only. -/
theorem spares_remove (h : fs.remove p = .ok a) : Spares [fs.place p] fs a := by
  obtain ⟨hdir, rfl⟩ := remove_eq_ok h
  exact spares_drop hdir

/-- A directory that is created is put at the place of its path, where nothing stood. -/
theorem createDirectory_eq_ok (h : fs.createDirectory p = .ok a) :
    fs.at? (fs.place p) = none ∧ a = fs.put (fs.place p) .directory := by
  obtain ⟨t, ht, h⟩ := exists_of_bind h
  split at h
  · exact absurd h (by simp)
  · next segment hname =>
    obtain ⟨⟨place, entry⟩, hentry, h⟩ := exists_of_bind h
    obtain ⟨next, hstep, hentry⟩ := exists_of_bind hentry
    obtain ⟨rfl, rfl⟩ := Prod.mk.inj (Except.ok.inj hentry)
    obtain rfl := (target_eq_ok ht).eq_place hname hstep
    dsimp only at h
    split at h
    · exact absurd h (by simp)
    · next hfree => exact ⟨by simpa using hfree, (Except.ok.inj h).symm⟩

/-- A tree in which nothing has changed but that directories were made, where nothing stood, for a
path and for the directories above it. -/
structure Makes (p : Path) (a b : Files) : Prop where
  spares : Spares [] a b
  named : ∀ loc, b.at? loc ≠ a.at? loc → ∃ dir, p.Within dir ∧ loc = a.place dir

namespace Makes

/-- A tree is left as it is. -/
theorem refl (p : Path) (fs : Files) : Makes p fs fs :=
  ⟨.refl [] fs, fun _ hchanged => absurd rfl hchanged⟩

/-- Directories are made one after the other. -/
theorem trans (h : Makes p a b) (h' : Makes p b c) : Makes p a c := by
  refine ⟨h.spares.trans h'.spares, fun loc hchanged => ?_⟩
  by_cases hloc : b.at? loc = a.at? loc
  · obtain ⟨dir, hdir, hplace⟩ := h'.named loc fun hsame => hchanged (hsame.trans hloc)
    exact ⟨dir, hdir, hplace.trans (place_congr h.spares.workDir dir).symm⟩
  · exact h.named loc hloc

/-- What is made above a path is made for the path. -/
theorem of_parent? {above : Path} (hparent : p.parent? = some above) (h : Makes above a b) :
    Makes p a b := by
  refine ⟨h.spares, fun loc hchanged => ?_⟩
  obtain ⟨dir, hdir, hplace⟩ := h.named loc hchanged
  exact ⟨dir, .head hparent hdir, hplace⟩

end Makes

/-- Creating a directory makes it. -/
theorem makes_createDirectory (h : fs.createDirectory p = .ok a) : Makes p fs a := by
  obtain ⟨hnone, rfl⟩ := createDirectory_eq_ok h
  have hroot : fs.place p ≠ [] := ne_nil_of_isDirectoryAt (by rw [isDirectoryAt, hnone]; rfl)
  refine ⟨spares_put_directory hnone, fun loc hchanged => ⟨p, .refl, ?_⟩⟩
  by_contra hne
  exact hchanged ((at?_put hroot _ loc).trans (if_neg hne))

/-- Creating directories makes them, also when it fails. -/
theorem makes_createDirectories (fs : Files) (p : Path) :
    Makes p fs (fs.createDirectories p).2 := by
  rw [createDirectories]
  generalize p.text.length + 1 = fuel
  induction fuel generalizing p with
  | zero => exact .refl p fs
  | succ fuel ih =>
      rw [createDirectoriesWithin]
      split
      · exact .refl p fs
      · split
        · next hmade => exact makes_createDirectory hmade
        · split
          · exact .refl p fs
          · next above hparent =>
            have habove := (ih above).of_parent? hparent
            split
            · next hwithin =>
              rw [hwithin] at habove
              exact habove
            · next hwithin =>
              rw [hwithin] at habove
              split
              · next hdone => exact habove.trans (makes_createDirectory hdone)
              · split
                · exact habove
                · exact habove
        · split
          · exact .refl p fs
          · exact .refl p fs

/-- Creating directories leaves all places alone that are taken, also when it fails. -/
theorem spares_createDirectories (fs : Files) (p : Path) :
    Spares [] fs (fs.createDirectories p).2 :=
  (makes_createDirectories fs p).spares

end IncrementalBuild.Files
