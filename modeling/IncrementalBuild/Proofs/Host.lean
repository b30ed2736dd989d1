import IncrementalBuild.Host
import IncrementalBuild.Proofs.Host.Files
import IncrementalBuild.Proofs.Snapshot
/-!
# A quiet host

On a host to which nothing happens in the meantime, looking changes nothing and shows what the
file tree shows, and changes are those of the file tree.

## Main results

* `Access.look_quiet`, `Access.change_quiet` — one look, one change.
* `Snapshot.capture_quiet` — the snapshot of a collection.
-/

namespace IncrementalBuild

variable {h : Host}

/-- Looking at a quiet host changes nothing. -/
theorem Access.look_quiet {α : Type} (f : Files → Except FileError α)
    (quiet : h.interference = []) : look f h = (f h.files, h) := by
  rw [look, Host.enter_of_interference_eq_nil quiet]

/-- A change of a quiet host is the change of its files, or fails for a reason that they explain. -/
theorem Access.change_quiet (f : Files → Except FileError Files) (quiet : h.interference = []) :
    change f h = match f h.files with
      | .ok files => (.ok (), { h with files })
      | .error e => (.error e, h) := by
  cases hf : f h.files <;> simp only [change, Host.enter_of_interference_eq_nil quiet, hf]

/-- So are directories that are made. Those that were made before one failed stay. -/
theorem Access.createDirectories_quiet (p : Path) (quiet : h.interference = []) :
    createDirectories p h = match h.files.createDirectories p with
      | (some e, files) => (.error e, { h with files })
      | (none, files) => (.ok (), { h with files }) := by
  rcases hmade : h.files.createDirectories p with ⟨_ | _, files⟩ <;>
    simp only [createDirectories, Host.enter_of_interference_eq_nil quiet, hmade]

/-- The stamps of paths on a quiet host are what the file tree shows. -/
theorem FileStamp.captureAll_quiet (base : Path) (paths : List Path)
    (quiet : h.interference = []) :
    captureAll base paths h = (paths.map fun p => ⟨p, h.files.timeOf (base.join p)⟩, h) := by
  induction paths with
  | nil => rfl
  | cons p rest ih =>
      rw [captureAll, Access.modified, Access.look_quiet _ quiet]
      dsimp only
      rw [ih]
      rfl

/-- **Capture.** The snapshot of a collection on a quiet host is what the file tree shows. -/
theorem Snapshot.capture_quiet (base : Path) (paths : List Path) (quiet : h.interference = []) :
    capture base paths h =
      (.ofStamps (paths.map fun p => ⟨p, h.files.timeOf (base.join p)⟩), h) := by
  rw [capture, FileStamp.captureAll_quiet base paths quiet]

end IncrementalBuild
