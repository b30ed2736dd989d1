import IncrementalBuild.Proofs.Host.Places
import IncrementalBuild.Publish
/-!
# Open files

Who opened a file writes to that file wherever it is moved, and for nobody once it was removed.
Each writer goes on from where it stopped, over whatever stands there.

## Main definitions

* `Bytes.overwrite` — contents after a piece was written at an offset.
* `Files.writeAt` — writing to an open file.
* `Files.move` — moving what stands at a path, where a directory does not take a file's place.

## Main results

* `Files.place_temporary_eq`, `Files.place_eq_of_temporary` — paths with names have their temporary
  files at one place if and only if they name one place.
* `Files.move_eq_ok` — what moving leaves.
-/

namespace IncrementalBuild

/-- Contents after a piece was written at an offset. What is missing before it is filled up. -/
def Bytes.overwrite (old : Bytes) (offset : Nat) (piece : Bytes) : Bytes :=
  old.take offset ++ List.replicate (offset - old.length) 0 ++ piece ++
    old.drop (offset + piece.length)

/-- A piece that follows what was written so far. -/
theorem Bytes.overwrite_take {contents : Bytes} {offset size : Nat}
    (h : offset + size ≤ contents.length) :
    Bytes.overwrite (contents.take offset) offset ((contents.drop offset).take size) =
      contents.take (offset + size) := by
  have hlength : (contents.take offset).length = offset := by
    rw [List.length_take]
    omega
  have hrest : (contents.take offset).drop
      (offset + ((contents.drop offset).take size).length) = [] :=
    List.drop_of_length_le (by omega)
  rw [overwrite, hrest, hlength, Nat.sub_self, List.take_of_length_le hlength.le,
    List.replicate_zero, List.append_nil, List.append_nil, ← List.take_add]

namespace Files

variable {fs a : Files} {p q t : Path} {loc other : Location} {dir : Option (List Char)}
  {name : List Char}

/-! ### Temporary files -/

/-- The temporary file of a path stands beside it. -/
theorem place_temporary (h : p.Named dir name) (fs : Files) :
    fs.place (Publish.temporary p) =
      fs.folder dir ++ [String.ofList (name ++ Path.temporarySuffix)] :=
  place_of_named h.temporary (Path.isName_append name (by decide))

/-- A path whose temporary file is where that of a path with a name is has a name, and names its
place. -/
theorem place_eq_of_temporary (hp : p.HasName)
    (h : fs.place (Publish.temporary q) = fs.place (Publish.temporary p)) :
    q.HasName ∧ fs.place q = fs.place p := by
  obtain ⟨dir, name, hnamed, hname⟩ := hp
  obtain ⟨dir', name', hnamed'⟩ := Path.exists_named q
  rw [place_temporary hnamed, place_temporary hnamed'] at h
  obtain ⟨hfolder, hlast⟩ := List.append_inj' h rfl
  have hsame : name' = name := by
    have hlist := congrArg String.toList (List.cons.inj hlast).1
    rw [String.toList_ofList, String.toList_ofList] at hlist
    exact List.append_cancel_right hlist
  subst hsame
  refine ⟨⟨dir', name', hnamed', hname⟩, ?_⟩
  rw [place_of_named hnamed hname, place_of_named hnamed' hname, hfolder]

/-- Paths with names that name one place have their temporary files at one place. -/
theorem place_temporary_eq (hp : p.HasName) (hq : q.HasName) (h : fs.place q = fs.place p) :
    fs.place (Publish.temporary q) = fs.place (Publish.temporary p) := by
  obtain ⟨dir, name, hnamed, hname⟩ := hp
  obtain ⟨dir', name', hnamed', hname'⟩ := hq
  rw [place_of_named hnamed hname, place_of_named hnamed' hname'] at h
  obtain ⟨hfolder, hlast⟩ := List.append_inj' h rfl
  have hsame : name' = name := by
    have hlist := congrArg String.toList (List.cons.inj hlast).1
    rwa [String.toList_ofList, String.toList_ofList] at hlist
  rw [place_temporary hnamed, place_temporary hnamed', hfolder, hsame]

/-! ### Writing -/

/-- Writes a piece to an open file, wherever it is. -/
def writeAt (fs : Files) (file : Option Location) (offset : Nat) (piece : Bytes) : Files :=
  match file with
  | none => fs
  | some loc =>
    match fs.contentsAt? loc with
    | none => fs
    | some old => fs.putFile loc (Bytes.overwrite old offset piece)

/-- What a file contains after a piece was written to it. -/
theorem contentsAt?_putFile {old : Bytes} (h : fs.contentsAt? loc = some old) (contents : Bytes) :
    (fs.putFile loc contents).contentsAt? loc = some contents ∧
      Spares [loc] fs (fs.putFile loc contents) := by
  obtain ⟨-, hdirectory⟩ := at?_of_contentsAt? (h ▸ rfl : (fs.contentsAt? loc).isSome)
  obtain ⟨⟨executable, hat⟩, hspares⟩ := at?_putFile hdirectory contents
  exact ⟨by rw [contentsAt?, hat], hspares⟩

/-- Writing changes the file only. -/
theorem spares_writeAt (fs : Files) (loc : Location) (offset : Nat) (piece : Bytes) :
    Spares [loc] fs (fs.writeAt (some loc) offset piece) := by
  rw [writeAt]
  split
  · exact .refl [loc] fs
  · next old hold => exact (contentsAt?_putFile hold _).2

/-- The file has the piece then. -/
theorem contentsAt?_writeAt {old : Bytes} (h : fs.contentsAt? loc = some old) (offset : Nat)
    (piece : Bytes) :
    (fs.writeAt (some loc) offset piece).contentsAt? loc =
      some (Bytes.overwrite old offset piece) := by
  rw [writeAt]
  split
  · next hnone => cases h.symm.trans hnone
  · next old' hold =>
    obtain rfl := Option.some.inj (h.symm.trans hold)
    exact (contentsAt?_putFile hold _).1

/-! ### Moving -/

/-- Moves what stands at a path to another one. A directory does not take a file's place. -/
def move (fs : Files) (t p : Path) : Except FileError Files :=
  if fs.isDirectoryAt (fs.place t) && (fs.contentsAt? (fs.place p)).isSome then
    .error .notADirectory
  else fs.rename t p

/-- What is left when something that is no directory was moved. A directory takes along all that is
in it, which this says nothing of. -/
structure Moved (fs : Files) (t p : Path) (a : Files) : Prop where
  workDir : a.workDir = fs.workDir
  /-- Other places have what they had. -/
  elsewhere : ∀ loc, loc ≠ fs.place t → loc ≠ fs.place p → a.at? loc = fs.at? loc
  /-- What was at the one place is at the other. -/
  taken : a.at? (fs.place p) = fs.at? (fs.place t)
  /-- The path to which it was moved has a name. -/
  named : p.HasName

namespace Moved

variable (h : Moved fs t p a)
include h

/-- Files at other places are as they were. -/
theorem contentsAt?_eq (ht : loc ≠ fs.place t) (hp : loc ≠ fs.place p) :
    a.contentsAt? loc = fs.contentsAt? loc := by
  rw [contentsAt?, contentsAt?, h.elsewhere loc ht hp]

/-- A file that was moved is as it was. -/
theorem contentsAt?_place : a.contentsAt? (fs.place p) = fs.contentsAt? (fs.place t) := by
  rw [contentsAt?, contentsAt?, h.taken]

end Moved

/-- A place that a step to a name leads to is not the root. -/
theorem ne_nil_of_name? {target : Target} {segment : List Char}
    (hname : target.name? = some segment) (hstep : fs.stepTo target.directory segment = .ok loc) :
    loc ≠ [] := by
  obtain ⟨-, hhere, hup⟩ := Target.last_of_name? hname
  rw [stepTo] at hstep
  split at hstep
  · exact absurd hstep (by simp)
  · split at hstep
    · exact absurd hstep (by simp)
    · rw [← Except.ok.inj hstep]
      simp

/-- **Moving.** -/
theorem move_eq_ok (h : fs.move t p = .ok a) (hfile : fs.isDirectoryAt (fs.place t) = false)
    (hne : fs.place t ≠ fs.place p) : Moved fs t p a := by
  rw [move] at h
  split at h
  · exact absurd h (by simp)
  · obtain ⟨s, hs, h⟩ := exists_of_bind h
    obtain ⟨d, hd, h⟩ := exists_of_bind h
    split at h
    · next sourceName destinationName hsource hdestination =>
      obtain ⟨⟨source, entry⟩, hentry, h⟩ := exists_of_bind h
      obtain ⟨next, hstep, hentry⟩ := exists_of_bind hentry
      obtain ⟨rfl, rfl⟩ := Prod.mk.inj (Except.ok.inj hentry)
      obtain ⟨⟨destination, taken⟩, hentry, h⟩ := exists_of_bind h
      obtain ⟨next', hstep', hentry⟩ := exists_of_bind hentry
      obtain ⟨rfl, rfl⟩ := Prod.mk.inj (Except.ok.inj hentry)
      have hd := target_eq_ok hd
      have hroot := ne_nil_of_name? hsource hstep
      have hroot' := ne_nil_of_name? hdestination hstep'
      obtain rfl := (target_eq_ok hs).eq_place hsource hstep
      obtain rfl := hd.eq_place hdestination hstep'
      dsimp only at h
      rcases hat : fs.at? (fs.place t) with _ | moved
      · rw [hat] at h
        exact absurd h (by simp)
      · rw [hat] at h
        dsimp only at h
        split at h
        · exact absurd h (by simp)
        · next hseparated =>
          split at h
          · exact absurd h (by simp)
          · obtain rfl := Except.ok.inj h
            have hat' (loc : Location) :
                ((fs.drop (fs.place t)).put (fs.place p) moved).at? loc =
                  if loc = fs.place p then some moved
                  else if loc = fs.place t then none else fs.at? loc := by
              rw [at?_put hroot', at?_drop hroot]
            refine ⟨rfl, fun loc ht hp => ?_, ?_, ?_⟩
            · rw [hat', if_neg hp, if_neg ht]
            · rw [hat', if_pos rfl, hat]
            · have hmoved : moved ≠ .directory := by
                rintro rfl
                rw [isDirectoryAt, hat] at hfile
                exact absurd hfile (by simp)
              have hends : d.separated = false := by
                by_contra hends
                rw [Bool.not_eq_false] at hends
                exact hseparated ⟨hmoved, .inr hends⟩
              obtain ⟨hname, dir, hp⟩ := hd.named hdestination hends
              exact ⟨dir, destinationName, hp, hname⟩
    · exact absurd h (by simp)

end Files
end IncrementalBuild
