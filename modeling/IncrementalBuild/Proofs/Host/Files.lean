import IncrementalBuild.Host.Files
import IncrementalBuild.Proofs.Path.Join
/-!
# Where paths lead, and what stands there

A path that leads anywhere leads to the place that its steps name, so equal paths never lead to
different places. What a file tree shows of a place is a time and, for a file, its contents.

## Main definitions

* `Files.destination` — the place that steps name from a place.
* `Files.timeOf` — the time that a snapshot takes down for a path.
* `Files.timeAt?`, `Files.contentsAt?` — what a tree shows of a place.
* `Files.Dated` — two trees that show other contents only with another time.

## Main results

* `Files.locate_unique` — equal paths lead to one place.
* `Files.Dated.contents_eq` — a path that shows the time of a file shows its contents.
-/

namespace IncrementalBuild

namespace Files

variable {fs a b : Files} {p q : Path}

/-! ### Places -/

/-- One step from a place, as far as it does not fail. -/
def follow (loc : Location) : Component → Location
  | .up => loc.dropLast
  | .name text => loc ++ [String.ofList text]
  | _ => loc

/-- The place that steps name. -/
def destination (loc : Location) (steps : List Component) : Location := steps.foldl follow loc

/-- A step that does not fail goes where its component says. -/
theorem stepTo_eq_ok {loc next : Location} {segment : List Char}
    (hne : segment ≠ []) (h : fs.stepTo loc segment = .ok next) :
    next = destination loc (Component.ofSegment? segment).toList := by
  rw [stepTo] at h
  split at h
  · exact absurd h (by simp)
  · split at h
    · next hdot =>
        subst hdot
        exact (Except.ok.inj h).symm
    · next hdot =>
        split at h
        · next hup =>
            subst hup
            exact (Except.ok.inj h).symm
        · next hup =>
            split at h
            · exact absurd h (by simp)
            · have hname : Component.ofSegment? segment = some (.name segment) := by
                unfold Component.ofSegment?
                split <;> simp_all
              rw [hname]
              exact (Except.ok.inj h).symm

/-- A walk that does not fail ends where its segments say. -/
theorem walk_eq_ok {loc next : Location} {parts : List (List Char)} (hne : [] ∉ parts)
    (h : fs.walk loc parts = .ok next) :
    next = destination loc (parts.filterMap Component.ofSegment?) := by
  induction parts generalizing loc with
  | nil => exact (Except.ok.inj h).symm
  | cons segment rest ih =>
      rw [walk] at h
      split at h
      · exact absurd h (by simp)
      · next mid hmid =>
          split at h
          · have hrest := ih (fun hmem => hne (List.mem_cons_of_mem _ hmem)) h
            have hstep := stepTo_eq_ok (fun heq => hne (heq ▸ List.mem_cons_self)) hmid
            rw [hrest, hstep, List.filterMap_cons]
            cases Component.ofSegment? segment <;> rfl
          · exact absurd h (by simp)

/-- Empty segments are no steps. -/
theorem filterMap_steps (cs : List Char) :
    (steps cs).filterMap Component.ofSegment? = Path.stepsOf cs := by
  rw [steps, Path.stepsOf, List.filterMap_filter]
  refine List.filterMap_congr fun segment _ => ?_
  by_cases h : segment = []
  · rw [h]
    rfl
  · simp [h]

/-- A path that leads anywhere leads to the place that its steps name. -/
theorem locate_eq_ok {loc : Location} (h : fs.locate p = .ok loc) :
    loc = destination (fs.start p.text.toList) (Path.stepsOf p.text.toList) := by
  rw [locate] at h
  rcases hcheck : checkPath p with e | cs
  · rw [hcheck] at h
    exact absurd h (by simp [bind, Except.bind])
  · have hcs : cs = p.text.toList := by
      simp only [checkPath] at hcheck
      repeat' split at hcheck
      all_goals simp_all
    rw [hcheck] at h
    change (fs.walk (fs.start cs) (steps cs) >>= _) = _ at h
    rcases hwalk : fs.walk (fs.start cs) (steps cs) with e | next
    · rw [hwalk] at h
      exact absurd h (by simp [bind, Except.bind])
    · rw [hwalk] at h
      have hnil : ([] : List Char) ∉ steps cs := by simp [steps]
      have hnext := walk_eq_ok hnil hwalk
      have hloc : next = loc := by
        simp only [bind, Except.bind] at h
        split at h
        · exact absurd h (by simp)
        · exact Except.ok.inj h
      rw [← hloc, hnext, filterMap_steps, hcs]

/-- **Equal paths lead to one place.** -/
theorem locate_unique {loc loc' : Location} (hdir : a.workDir = b.workDir) (hs : p.same q = true)
    (hp : a.locate p = .ok loc) (hq : b.locate q = .ok loc') : loc = loc' := by
  have hcomponents : Path.componentsOf p.text.toList = Path.componentsOf q.text.toList :=
    Path.same_iff.mp hs
  have hstart : a.start p.text.toList = b.start q.text.toList := by
    have habs : p.text.toList.head? = some '/' ↔ q.text.toList.head? = some '/' := by
      rw [← Path.head?_componentsOf_iff, ← Path.head?_componentsOf_iff, hcomponents]
    rw [start, start, hdir]
    by_cases h : p.text.toList.head? = some '/'
    · rw [if_pos h, if_pos (habs.mp h)]
    · rw [if_neg h, if_neg fun hq => h (habs.mpr hq)]
  rw [locate_eq_ok hp, locate_eq_ok hq, hstart, Path.stepsOf_eq_filter,
    Path.stepsOf_eq_filter q.text.toList, hcomponents]

/-! ### What stands at a place -/

/-- A path leads to what stands at its place. -/
theorem stat_of_locate {loc : Location} (h : fs.locate p = .ok loc) :
    fs.stat p = (fs.at? loc).elim (.error .notFound) .ok := by
  rw [stat, h]
  simp only [bind, Except.bind]
  cases fs.at? loc <;> rfl

/-- What stands at a path stands at the place it leads to. -/
theorem stat_eq_ok {e : Entry} (h : fs.stat p = .ok e) :
    ∃ loc, fs.locate p = .ok loc ∧ fs.at? loc = some e := by
  rcases hlocate : fs.locate p with cause | loc
  · rw [stat, hlocate] at h
    exact absurd h (by simp [bind, Except.bind])
  · rw [stat_of_locate hlocate] at h
    rcases hat : fs.at? loc with _ | e'
    · rw [hat] at h
      exact absurd h (by simp)
    · rw [hat] at h
      obtain rfl := Except.ok.inj h
      exact ⟨loc, rfl, hat⟩

/-- The time that a snapshot takes down for a path. -/
def timeOf (fs : Files) (p : Path) : Timestamp := (fs.modified p).toOption.getD .epoch

/-- The time that a place shows. -/
def timeAt? (fs : Files) (loc : Location) : Option Timestamp :=
  match fs.at? loc with
  | some (.file _ time _) => some time
  | some _ => some fs.clock
  | none => none

/-- The contents of the file at a place, if a file stands there. -/
def contentsAt? (fs : Files) (loc : Location) : Option Bytes :=
  match fs.at? loc with
  | some (.file contents _ _) => some contents
  | _ => none

/-- The contents of the file that a path leads to. -/
def contentsOf? (fs : Files) (p : Path) : Option Bytes := (fs.read p).toOption

/-- Two trees, seen from one work directory. A place that shows, in the second, the time of a file
that stood there in the first has that file's contents, and no file has the time of the epoch. -/
structure Dated (a b : Files) : Prop where
  workDir_eq : a.workDir = b.workDir
  contents : ∀ loc time c, a.contentsAt? loc = some c → a.timeAt? loc = some time →
    b.timeAt? loc = some time → b.contentsAt? loc = some c
  epoch : ∀ loc c, a.contentsAt? loc = some c → a.timeAt? loc ≠ some .epoch

/-- A tree in which no file has the time of the epoch shows one contents with one time. -/
theorem Dated.refl (h : ∀ loc c, fs.contentsAt? loc = some c → fs.timeAt? loc ≠ some .epoch) :
    Dated fs fs :=
  ⟨rfl, fun _ _ _ hc _ _ => hc, h⟩

/-- A path with contents leads to a place that shows them, with the time that is taken down. -/
theorem contentsOf?_eq_some {contents : Bytes} (h : fs.contentsOf? p = some contents) :
    ∃ loc, fs.locate p = .ok loc ∧ fs.contentsAt? loc = some contents ∧
      fs.timeAt? loc = some (fs.timeOf p) := by
  rw [contentsOf?, read] at h
  rcases hstat : fs.stat p with e | e
  · rw [hstat] at h
    exact absurd h (by simp [Except.toOption])
  · obtain ⟨loc, hloc, hat⟩ := stat_eq_ok hstat
    rw [hstat] at h
    cases e with
    | directory => exact absurd h (by simp [Except.toOption])
    | socket server => exact absurd h (by simp [Except.toOption])
    | file bytes time executable =>
        refine ⟨loc, hloc, ?_, ?_⟩
        · rw [contentsAt?, hat]
          exact h
        · rw [timeAt?, hat, timeOf, modified, hstat]
          rfl

/-- A path with a time of its own leads to a place that shows it. -/
theorem timeAt?_of_timeOf (h : fs.timeOf p ≠ .epoch) :
    ∃ loc, fs.locate p = .ok loc ∧ fs.timeAt? loc = some (fs.timeOf p) := by
  rw [timeOf, modified] at h ⊢
  rcases hstat : fs.stat p with e | e
  · rw [hstat] at h
    exact absurd rfl h
  · obtain ⟨loc, hloc, hat⟩ := stat_eq_ok hstat
    refine ⟨loc, hloc, ?_⟩
    rw [timeAt?, hat]
    rcases e with _ | ⟨bytes, time, executable⟩ | _ <;> rfl

/-- A place with contents shows them to every path that leads there. -/
theorem contentsOf?_of_locate {loc : Location} {contents : Bytes} (hp : fs.locate p = .ok loc)
    (h : fs.contentsAt? loc = some contents) : fs.contentsOf? p = some contents := by
  rw [contentsAt?] at h
  split at h
  · next bytes time executable hat =>
      have hstat : fs.stat p = .ok (.file bytes time executable) := by
        rw [stat_of_locate hp, hat]
        rfl
      rw [contentsOf?, read, hstat, Option.some.inj h]
      rfl
  · exact absurd h (by simp)

/-- **Equal paths show one contents.** -/
theorem contentsOf?_unique {c d : Bytes} (hs : p.same q = true) (hp : fs.contentsOf? p = some c)
    (hq : fs.contentsOf? q = some d) : c = d := by
  obtain ⟨loc, hloc, hc, -⟩ := contentsOf?_eq_some hp
  obtain ⟨loc', hloc', hd, -⟩ := contentsOf?_eq_some hq
  obtain rfl := locate_unique rfl hs hloc hloc'
  rw [hc] at hd
  exact Option.some.inj hd

/-- A file that is found shows the time of its place. -/
theorem exists_timeAt? (h : (fs.contentsOf? p).isSome = true) :
    ∃ loc, fs.locate p = .ok loc ∧ fs.timeAt? loc = some (fs.timeOf p) := by
  obtain ⟨contents, hcontents⟩ := Option.isSome_iff_exists.mp h
  obtain ⟨loc, hlocate, -, htime⟩ := contentsOf?_eq_some hcontents
  exact ⟨loc, hlocate, htime⟩

/-- Equal paths under which a file is found show one time. -/
theorem timeOf_unique (hs : p.same q = true) (hp : (fs.contentsOf? p).isSome = true)
    (hq : (fs.contentsOf? q).isSome = true) : fs.timeOf p = fs.timeOf q := by
  obtain ⟨loc, hlocate, htime⟩ := exists_timeAt? hp
  obtain ⟨loc', hlocate', htime'⟩ := exists_timeAt? hq
  obtain rfl := locate_unique rfl hs hlocate hlocate'
  exact Option.some.inj (htime.symm.trans htime')

/-- An equal path shows the time of a file that is found, or the epoch, if nothing is found under
its spelling. -/
theorem timeOf_same_or_epoch (hs : p.same q = true) (hp : (fs.contentsOf? p).isSome = true) :
    fs.timeOf q = fs.timeOf p ∨ fs.timeOf q = .epoch := by
  by_cases hepoch : fs.timeOf q = .epoch
  · exact .inr hepoch
  obtain ⟨loc, hlocate, htime⟩ := exists_timeAt? hp
  obtain ⟨loc', hlocate', htime'⟩ := timeAt?_of_timeOf hepoch
  obtain rfl := locate_unique rfl hs hlocate hlocate'
  exact .inl (Option.some.inj (htime'.symm.trans htime))

/-- **Times tell contents.** A path that shows the time that an equal path showed of a file shows
that file's contents. -/
theorem Dated.contents_eq {c : Bytes} (h : Dated a b) (hs : p.same q = true)
    (hp : a.contentsOf? p = some c) (htime : b.timeOf q = a.timeOf p) :
    b.contentsOf? q = some c := by
  obtain ⟨loc, hloc, hc, ht⟩ := contentsOf?_eq_some hp
  have hepoch : b.timeOf q ≠ .epoch := by
    intro he
    rw [← htime, he] at ht
    exact h.epoch loc c hc ht
  obtain ⟨loc', hloc', ht'⟩ := timeAt?_of_timeOf hepoch
  obtain rfl := locate_unique h.workDir_eq hs hloc hloc'
  rw [htime] at ht'
  exact contentsOf?_of_locate hloc' (h.contents loc _ c hc ht ht')

end Files
end IncrementalBuild
