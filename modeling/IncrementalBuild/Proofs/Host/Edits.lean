import IncrementalBuild.Proofs.Host.Save
/-!
# Histories of edited files

A history lists the file trees that were there one after the other, the last one first. Between two
of them others may save some files: each time with a modification time that the file never had
before. So a file that has a time that it had earlier was not saved since.

## Main definitions

* `Files.Edits` — histories in which the files at certain paths are edited, and do not come or go.
* `Files.ReadSince` — a path had a time in a history, and then, or later, the contents.

## Main results

* `Files.Edits.contents_eq` — between two moments that show one time a path shows one contents.
* `Files.Edits.read_eq` — what was read of a file since it had a time is what the file holds while
  it has that time.
* `Files.Edits.save` — a save with a new time is an edit.
-/

namespace IncrementalBuild.Files

variable {paths : List Path} {fs a b : Files} {past history : List Files} {p q : Path}
  {time : Timestamp} {contents : Bytes} {loc : Location}

/-! ### Histories -/

/-- A history in which the files at certain paths are edited: none of them comes or goes, and each
is left as it was, or shows a time that it never showed. -/
inductive Edits (paths : List Path) : List Files → Prop
  | start (fs : Files) : Edits paths [fs]
  | next {fs a : Files} {past : List Files} (before : Edits paths (a :: past))
      (there : ∀ p ∈ paths, (fs.contentsOf? p).isSome = (a.contentsOf? p).isSome)
      (saved : ∀ p ∈ paths, (fs.contentsOf? p).isSome = true →
        (fs.contentsOf? p = a.contentsOf? p ∧ fs.timeOf p = a.timeOf p) ∨
          ∀ b ∈ a :: past, fs.timeOf p ≠ b.timeOf p) : Edits paths (fs :: a :: past)

/-- A path had a time at some moment of a history, and it had contents then or at a moment after
it. -/
def ReadSince (history : List Files) (p : Path) (time : Timestamp) (contents : Bytes) : Prop :=
  ∃ later seen earlier, history = later ++ seen :: earlier ∧
    seen.contentsOf? p = some contents ∧ ∃ fs ∈ seen :: earlier, fs.timeOf p = time

/-- What was read is still read when more has happened. -/
theorem ReadSince.append_later (h : ReadSince history p time contents) (recent : List Files) :
    ReadSince (recent ++ history) p time contents := by
  obtain ⟨later, seen, earlier, rfl, hseen, htime⟩ := h
  exact ⟨recent ++ later, seen, earlier, (List.append_assoc _ _ _).symm, hseen, htime⟩

/-- What was read is still read when one goes further back. -/
theorem ReadSince.append_earlier (h : ReadSince history p time contents) (old : List Files) :
    ReadSince (history ++ old) p time contents := by
  obtain ⟨later, seen, earlier, rfl, hseen, fs, hfs, htime⟩ := h
  refine ⟨later, seen, earlier ++ old, by simp, hseen, fs, ?_, htime⟩
  rw [← List.cons_append]
  exact List.mem_append_left old hfs

namespace Edits

/-- A history goes back to an earlier one. -/
theorem of_append {later : List Files} (h : Edits paths (later ++ fs :: past)) :
    Edits paths (fs :: past) := by
  induction later with
  | nil => exact h
  | cons x rest ih =>
      refine ih ?_
      obtain ⟨y, others, hy⟩ : ∃ y others, rest ++ fs :: past = y :: others := by
        cases rest with
        | nil => exact ⟨fs, past, rfl⟩
        | cons y rest => exact ⟨y, rest ++ fs :: past, rfl⟩
      rw [List.cons_append, hy] at h
      rw [hy]
      cases h with
      | next before => exact before

/-- Edits of some files are edits of fewer. -/
theorem mono {fewer : List Path} (h : Edits paths history) (hpaths : ∀ p ∈ fewer, p ∈ paths) :
    Edits fewer history := by
  induction h with
  | start fs => exact .start fs
  | next before there saved ih =>
      exact .next ih (fun p hp => there p (hpaths p hp)) fun p hp => saved p (hpaths p hp)

/-- The files of a history are there throughout. -/
theorem isSome_eq (h : Edits paths (fs :: past)) (hp : p ∈ paths) (ha : a ∈ fs :: past) :
    (fs.contentsOf? p).isSome = (a.contentsOf? p).isSome := by
  generalize hhistory : fs :: past = history at h ha
  induction h generalizing fs past with
  | start x =>
      obtain ⟨rfl, rfl⟩ := List.cons.inj hhistory
      obtain rfl := List.mem_singleton.mp ha
      rfl
  | @next x y others before there saved ih =>
      obtain ⟨rfl, rfl⟩ := List.cons.inj hhistory
      rcases List.mem_cons.mp ha with rfl | ha
      · rfl
      · exact (there p hp).trans (ih rfl ha)

/-- **Windows.** A file that shows a time that it showed at `a` has had its contents since: it had
them at `b`, which came at `a` or later. -/
theorem contents_eq {later earlier : List Files} (h : Edits paths (fs :: past)) (hp : p ∈ paths)
    (hfile : (fs.contentsOf? p).isSome = true) (hb : fs :: past = later ++ b :: earlier)
    (ha : a ∈ b :: earlier) (htime : fs.timeOf p = a.timeOf p) :
    fs.contentsOf? p = b.contentsOf? p := by
  generalize hhistory : fs :: past = history at h hb
  induction h generalizing fs past later with
  | start x =>
      obtain ⟨rfl, rfl⟩ := List.cons.inj hhistory
      rcases List.cons_eq_append_iff.mp hb with ⟨-, hb⟩ | ⟨rest, -, hrest⟩
      · rw [(List.cons.inj hb).1]
      · exact absurd hrest (by simp)
  | @next x y others before there saved ih =>
      obtain ⟨rfl, rfl⟩ := List.cons.inj hhistory
      rcases List.cons_eq_append_iff.mp hb with ⟨-, hb⟩ | ⟨rest, -, hrest⟩
      · rw [(List.cons.inj hb).1]
      · have hmem : a ∈ y :: others := by
          rw [hrest]
          exact List.mem_append_right rest ha
        rcases saved p hp hfile with ⟨hcontents, hsame⟩ | hnew
        · rw [hcontents]
          exact ih ((there p hp).symm.trans hfile) (hsame.symm.trans htime) rfl hrest
        · exact absurd htime (hnew a hmem)

/-- **Reading.** What was read of a file since it had a time is what the file holds as long as it
shows that time: at `x`, and at `fs`, which came after the reading and not after `x`. Paths that are
equal lead to one file. -/
theorem read_eq {x : Files} {recent : List Files} {c d : Bytes}
    (h : Edits paths (x :: recent ++ history)) (hread : ReadSince history q time d)
    (hq : q ∈ paths) (hs : p.same q = true) (hx : (x.contentsOf? p).isSome = true)
    (htime : x.timeOf p = time) (hfs : fs ∈ x :: recent) (hc : fs.contentsOf? p = some c) :
    c = d := by
  obtain ⟨later, seen, earlier, rfl, hseen, a, ha, hat⟩ := hread
  have hmem : ∀ y ∈ x :: recent ++ (later ++ seen :: earlier),
      (x.contentsOf? q).isSome = (y.contentsOf? q).isSome := fun y hy => h.isSome_eq hq hy
  have hxq : (x.contentsOf? q).isSome = true := by
    rw [hmem seen (by simp), hseen]
    rfl
  have hfsq : (fs.contentsOf? q).isSome = true := by
    rw [← hmem fs (List.mem_append_left _ hfs), hxq]
  -- At the last moment the file shows the time that it had before it was read.
  have hxa : x.timeOf q = a.timeOf q := by
    rw [← timeOf_unique hs hx hxq, htime, hat]
  have hseenAt : x :: (recent ++ (later ++ seen :: earlier)) =
      (x :: recent ++ later) ++ seen :: earlier := by simp
  have hxseen : x.contentsOf? q = seen.contentsOf? q := h.contents_eq hq hxq hseenAt ha hxa
  obtain ⟨before, after, hsplit⟩ := List.append_of_mem hfs
  have hfsAt : x :: (recent ++ (later ++ seen :: earlier)) =
      before ++ fs :: (after ++ (later ++ seen :: earlier)) := by
    rw [← List.cons_append, hsplit, List.append_assoc, List.cons_append]
  have hafter : a ∈ fs :: (after ++ (later ++ seen :: earlier)) :=
    List.mem_cons_of_mem fs (List.mem_append_right after (List.mem_append_right later ha))
  have hxfs : x.contentsOf? q = fs.contentsOf? q := h.contents_eq hq hxq hfsAt hafter hxa
  rw [hxfs, hseen] at hxseen
  exact contentsOf?_unique hs hc hxseen

end Edits
/-! ### Saves -/

/-- **Saves are edits.** A file of a history may be saved with a time that no path to it showed. -/
theorem Edits.save {s : Save} (h : Edits paths (fs :: past)) (hp : fs.locate s.path = .ok loc)
    (hfile : (fs.contentsAt? loc).isSome = true)
    (hnew : ∀ p ∈ paths, fs.locate p = .ok loc → ∀ b ∈ fs :: past, b.timeOf p ≠ s.modified) :
    Edits paths (fs.save s :: fs :: past) := by
  rcases save_cases hp hfile with hsame | ⟨hlocate, executable, hat⟩
  · rw [hsame]
    exact .next h (fun _ _ => rfl) fun _ _ _ => .inl ⟨rfl, rfl⟩
  have hsaved : (fs.save s).at? loc = some (.file s.contents s.modified executable) := by
    rw [hat, if_pos rfl]
  have hothers : ∀ place, place ≠ loc → (fs.save s).at? place = fs.at? place :=
    fun place hplace => by rw [hat, if_neg hplace]
  have hcontentsAt : ∀ place, place ≠ loc → (fs.save s).contentsAt? place = fs.contentsAt? place :=
    fun place hplace => by rw [contentsAt?, contentsAt?, hothers place hplace]
  refine .next h (fun p _ => ?_) fun p hmem hcontents => ?_
  · rw [contentsOf?_eq, contentsOf?_eq, hlocate]
    rcases fs.locate p with e | place
    · rfl
    · by_cases hplace : place = loc
      · subst hplace
        rw [Except.toOption, Option.bind_some, Option.bind_some, hfile, contentsAt?, hsaved]
        rfl
      · rw [Except.toOption, Option.bind_some, Option.bind_some, hcontentsAt place hplace]
  · rcases hplace : fs.locate p with e | place
    · rw [contentsOf?_eq, hlocate, hplace] at hcontents
      exact absurd hcontents (by simp [Except.toOption])
    by_cases heq : place = loc
    · subst heq
      refine .inr fun b hb => ?_
      rw [timeOf_of_file ((hlocate p).trans hplace) hsaved]
      exact (hnew p hmem hplace b hb).symm
    · refine .inl ⟨?_, ?_⟩
      · rw [contentsOf?_eq, contentsOf?_eq, hlocate, hplace, Except.toOption, Option.bind_some,
          Option.bind_some, hcontentsAt place heq]
      · rw [contentsOf?_eq, hlocate, hplace, Except.toOption, Option.bind_some,
          hcontentsAt place heq, contentsAt?] at hcontents
        split at hcontents
        · next bytes time executable hfile =>
            rw [timeOf_of_file hplace hfile, timeOf_of_file ((hlocate p).trans hplace)
              ((hothers place heq).trans hfile)]
        · exact absurd hcontents (by simp)

end IncrementalBuild.Files
