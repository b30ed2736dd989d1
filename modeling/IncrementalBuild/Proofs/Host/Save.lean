import IncrementalBuild.Host
import IncrementalBuild.Proofs.Host.Files
/-!
# Saving a file

A file that is saved stays where it is: every path leads where it led before, and every other place
shows what it showed. So a save is seen by the paths that lead to its file, and by no others.

## Main definitions

* `Files.SameShape` — trees in which the same places are taken, and by directories the same.

## Main results

* `Files.SameShape.locate_eq` — paths lead to the same places in trees of one shape.
* `Files.save_cases` — what a save of a file leaves.
* `Files.contentsOf?_eq`, `Files.timeOf_of_file` — what a path shows is what stands at its place.
-/

namespace IncrementalBuild.Files

variable {fs a b : Files} {p : Path} {loc : Location} {contents : Bytes}

/-! ### Places that are taken -/

/-- Leaving out one place does not matter for another. -/
theorem lookup_filter_ne {place : Location} (h : place ≠ loc) (entries : List (Location × Entry)) :
    (entries.filter fun x => x.1 != loc).lookup place = entries.lookup place := by
  induction entries with
  | nil => rfl
  | cons x rest ih =>
      by_cases hx : x.1 = loc
      · rw [List.filter_cons_of_neg (by simp [hx]), ih, List.lookup_cons, hx,
          beq_eq_false_iff_ne.mpr h]
      · rw [List.filter_cons_of_pos (by simpa using hx), List.lookup_cons, List.lookup_cons, ih]

/-- What stands in a tree after something was put somewhere. -/
theorem at?_put (hloc : loc ≠ []) (e : Entry) (place : Location) :
    (fs.put loc e).at? place = if place = loc then some e else fs.at? place := by
  rw [at?, at?, put]
  by_cases h : place = loc
  · subst h
    rw [if_neg hloc, if_pos rfl]
    simp
  · rw [if_neg h]
    dsimp only
    rw [List.lookup_cons, beq_eq_false_iff_ne.mpr h, lookup_filter_ne h]

/-- Two trees with the same work directory, in which the same places are taken, and by directories
the same. -/
structure SameShape (a b : Files) : Prop where
  workDir : a.workDir = b.workDir
  taken : ∀ loc, (a.at? loc).isSome = (b.at? loc).isSome
  directory : ∀ loc, a.isDirectoryAt loc = b.isDirectoryAt loc

/-- Paths lead to the same places in trees of one shape. -/
theorem SameShape.locate_eq (h : SameShape a b) (p : Path) : a.locate p = b.locate p := by
  have hstep : ∀ loc segment, a.stepTo loc segment = b.stepTo loc segment := by
    intro loc segment
    rw [stepTo, stepTo, h.directory]
  have hwalk : ∀ parts loc, a.walk loc parts = b.walk loc parts := by
    intro parts
    induction parts with
    | nil => exact fun _ => rfl
    | cons segment rest ih =>
        intro loc
        rw [walk, walk, hstep]
        split
        · rfl
        · rw [h.taken, ih]
  have hstart : ∀ cs, a.start cs = b.start cs := by
    intro cs
    rw [start, start, h.workDir]
  simp only [locate, hwalk, hstart, h.directory]

/-- A file stands at no root. -/
theorem ne_nil_of_file {time : Timestamp} {executable : Bool}
    (h : fs.at? loc = some (.file contents time executable)) : loc ≠ [] := by
  rintro rfl
  rw [at?, if_pos rfl] at h
  exact absurd h (by simp)

/-- Putting a file in the place of a file leaves the shape of a tree. -/
theorem sameShape_put {old : Bytes} {before time : Timestamp} {was executable : Bool}
    (h : fs.at? loc = some (.file old before was)) :
    SameShape (fs.put loc (.file contents time executable)) fs := by
  have hloc := ne_nil_of_file h
  refine ⟨rfl, fun place => ?_, fun place => ?_⟩
  · rw [at?_put hloc]
    split
    · next heq => rw [heq, h]; rfl
    · rfl
  · rw [isDirectoryAt, isDirectoryAt, at?_put hloc]
    split
    · next heq => rw [heq, h]; rfl
    · rfl

/-! ### Where files are written -/

/-- A walk along one more segment ends with its step. -/
theorem exists_of_walk_concat {parts : List (List Char)} {segment : List Char}
    {start next : Location} (h : fs.walk start (parts ++ [segment]) = .ok next) :
    ∃ mid, fs.walk start parts = .ok mid ∧ fs.stepTo mid segment = .ok next := by
  induction parts generalizing start with
  | nil =>
      rw [List.nil_append, walk] at h
      split at h
      · exact absurd h (by simp)
      · next place hplace =>
          split at h
          · obtain rfl := Except.ok.inj h
            exact ⟨start, rfl, hplace⟩
          · exact absurd h (by simp)
  | cons first rest ih =>
      rw [List.cons_append, walk] at h
      split at h
      · exact absurd h (by simp)
      · next place hplace =>
          split at h
          · next hsome =>
              obtain ⟨mid, hmid, hnext⟩ := ih h
              refine ⟨mid, ?_, hnext⟩
              rw [walk, hplace]
              dsimp only
              rw [if_pos hsome, hmid]
          · exact absurd h (by simp)

/-- A value in two parts comes from a value of the first. -/
theorem exists_of_bind {α β : Type} {x : Except FileError α} {f : α → Except FileError β} {y : β}
    (h : (x >>= f) = .ok y) : ∃ v, x = .ok v ∧ f v = .ok y := by
  cases x with
  | error e => exact absurd h (by simp [bind, Except.bind])
  | ok v => exact ⟨v, rfl, h⟩

/-- Where a path leads, its segments lead. -/
theorem walk_of_locate (h : fs.locate p = .ok loc) :
    ∃ cs, checkPath p = .ok cs ∧ fs.walk (fs.start cs) (steps cs) = .ok loc := by
  obtain ⟨cs, hcs, h⟩ := exists_of_bind h
  obtain ⟨next, hnext, h⟩ := exists_of_bind h
  split at h
  · exact absurd h (by simp)
  · obtain rfl := Except.ok.inj h
    exact ⟨cs, hcs, hnext⟩

/-- Where a file can be written, the segments of its path lead. -/
theorem walk_of_writable (h : fs.writable p = .ok loc) :
    ∃ cs directory name, checkPath p = .ok cs ∧
      fs.walk (fs.start cs) (steps cs).dropLast = .ok directory ∧
      (steps cs).getLast? = some name ∧ fs.stepTo directory name = .ok loc := by
  obtain ⟨t, ht, h⟩ := exists_of_bind h
  obtain ⟨cs, hcs, ht⟩ := exists_of_bind ht
  obtain ⟨directory, hdirectory, ht⟩ := exists_of_bind ht
  split at ht
  · obtain rfl := Except.ok.inj ht
    split at h
    · exact absurd h (by simp)
    · next name hname =>
        obtain ⟨⟨place, entry⟩, hentry, h⟩ := exists_of_bind h
        obtain ⟨next, hnext, hentry⟩ := exists_of_bind hentry
        obtain ⟨rfl, rfl⟩ := Prod.mk.inj (Except.ok.inj hentry)
        have hplace : next = loc := by
          dsimp only at h
          repeat' split at h
          all_goals first
            | exact Except.ok.inj h
            | exact absurd h (by simp)
        have hlast : (steps cs).getLast? = some name := by
          rw [Target.name?] at hname
          dsimp only at hname
          split at hname
          · exact absurd hname (by simp)
          · exact absurd hname (by simp)
          · exact absurd hname (by simp)
          · next heq =>
              rw [heq, ← hname]
        exact ⟨cs, directory, name, hcs, hdirectory, hlast, hplace ▸ hnext⟩
  · exact absurd ht (by simp)

/-- A file that can be written is where its path leads. -/
theorem eq_of_writable {place : Location} (hp : fs.locate p = .ok loc)
    (h : fs.writable p = .ok place) : place = loc := by
  obtain ⟨cs, hcs, hwalk⟩ := walk_of_locate hp
  obtain ⟨cs', directory, name, hcs', hdirectory, hlast, hstep⟩ := walk_of_writable h
  obtain rfl := Except.ok.inj (hcs.symm.trans hcs')
  obtain ⟨init, hinit⟩ := List.getLast?_eq_some_iff.mp hlast
  rw [hinit] at hwalk hdirectory
  rw [List.dropLast_concat] at hdirectory
  obtain ⟨mid, hmid, hnext⟩ := exists_of_walk_concat hwalk
  obtain rfl := Except.ok.inj (hmid.symm.trans hdirectory)
  exact Except.ok.inj (hstep.symm.trans hnext)

/-! ### Saves -/

/-- What a save of a file leaves: every path leads where it led, and at the place of the saved file
stands what was saved, unless the file could not be written. -/
theorem save_cases {s : Save} (hp : fs.locate s.path = .ok loc)
    (hfile : (fs.contentsAt? loc).isSome = true) :
    fs.save s = fs ∨ (∀ q, (fs.save s).locate q = fs.locate q) ∧ ∃ executable, ∀ place,
      (fs.save s).at? place =
        if place = loc then some (.file s.contents s.modified executable) else fs.at? place := by
  obtain ⟨old, before, was, hat⟩ : ∃ old before was, fs.at? loc = some (.file old before was) := by
    rw [contentsAt?] at hfile
    split at hfile
    · next old before was hat => exact ⟨old, before, was, hat⟩
    · exact absurd hfile (by simp)
  have hloc := ne_nil_of_file hat
  rcases hwritable : fs.writable s.path with e | place
  · refine .inl ?_
    rw [save, write, hwritable]
    rfl
  obtain rfl := eq_of_writable hp hwritable
  -- The file is written with the time of the clock, and then gets the time of the save.
  have hshape : SameShape (fs.putFile place s.contents) fs := by
    obtain ⟨hdir, htaken, hdirectory⟩ :
      SameShape (fs.put place (.file s.contents fs.clock was)) fs := sameShape_put hat
    rw [putFile, hat]
    exact ⟨hdir, htaken, hdirectory⟩
  have hput : ∀ other, (fs.putFile place s.contents).at? other =
      if other = place then some (.file s.contents fs.clock was) else fs.at? other := by
    intro other
    rw [putFile, hat]
    exact at?_put hloc _ other
  have hwritten : (fs.putFile place s.contents).at? place =
      some (.file s.contents fs.clock was) := by rw [hput, if_pos rfl]
  have hsave : fs.save s =
      (fs.putFile place s.contents).put place (.file s.contents s.modified was) := by
    rw [save, write, hwritable]
    simp only [bind, Except.bind, setModified, hshape.locate_eq, hp, hwritten]
    rfl
  refine .inr ⟨fun q => ?_, was, fun other => ?_⟩
  · rw [hsave, (sameShape_put hwritten).locate_eq, hshape.locate_eq]
  · rw [hsave, at?_put hloc, hput]
    split <;> rfl

/-- The contents that a path shows are those at the place it leads to. -/
theorem contentsOf?_eq (fs : Files) (p : Path) :
    fs.contentsOf? p = (fs.locate p).toOption.bind fs.contentsAt? := by
  rcases hlocate : fs.locate p with e | loc
  · rw [contentsOf?, read, stat, hlocate]
    rfl
  · rw [contentsOf?, read, stat_of_locate hlocate, Except.toOption, Option.bind_some, contentsAt?]
    rcases fs.at? loc with _ | _ | _ | _ <;> rfl

/-- The time that a path shows of a file is the file's. -/
theorem timeOf_of_file {time : Timestamp} {executable : Bool} (hp : fs.locate p = .ok loc)
    (hat : fs.at? loc = some (.file contents time executable)) : fs.timeOf p = time := by
  rw [timeOf, modified, stat_of_locate hp, hat]
  rfl

end IncrementalBuild.Files
