import IncrementalBuild.Proofs.Host.Handles
import IncrementalBuild.Proofs.Publish
import IncrementalBuild.Registry
/-!
# Publishing side by side

Builds in different slots of a registry publish their files at the same time. Here publishing is cut
into the steps that the file system sees, and those of different builds come in any order. A build
holds the lock of its slot while it publishes, so builds of one slot take turns. Builds of two slots
do not, also where their outputs are one file that is spelled in two ways.

The temporary file is named after the path. So two builds of one file fill one temporary file, and
what one of them moves to its place the other one goes on writing to.

## Main definitions

* `Publish.Job` — contents to publish at a path, for a build in a slot.
* `Publish.Press` — files on which jobs are under way. `Press.step` is a step of one of them,
  `Press.after` what steps lead to.
* `Press.Crossed`, `Press.Mistaken`, `Press.Displaced` — two jobs of one file were under way at
  once, the temporary file of a job is another one's file, and a job moved a directory that stood
  where it had filled its temporary file.

## Main results

* `Press.step_moves` — what a step does, case by case.
* `Press.publish_alone` — a job that nobody disturbs publishes its contents as `publish` does.
* `Press.whole_unless_crossed` — a file is as at first or as some job published it, unless jobs
  crossed or mistook it, or a directory was displaced.
* `Press.raced_of_displaced` — no directory is displaced unless jobs crossed or mistook some file.
* `Press.whole_of_spelled` — so it is where builds spell each file in one way.
* `Spellings.torn` — two spellings of one file, and an output that stays torn.
-/

namespace IncrementalBuild.Publish

open Files (Spares Moved)

/-- Contents to publish at a path, for a build in a slot of a registry. A build that publishes
several files has several jobs, one after the other. -/
structure Job where
  slot : Nat
  path : Path
  contents : Bytes

/-- The output of a build of a project, in the slot that a registry has for it. -/
def Job.ofBuild {ρ φ υ : Type} (r : Registry ρ φ υ) (project : String) (o : BuildOptions)
    (contents : Bytes) : Job :=
  ⟨(r.entry project o.output).1, o.outputPath, contents⟩

/-- How far a job has come. -/
inductive Stage
  /-- It waits for the lock of its slot. -/
  | coming
  | entered
  /-- The directory of its file is there. -/
  | ready
  /-- It has its temporary file open, wherever that is by now, and has written so many bytes. -/
  | writing (file : Option Location) (written : Nat)
  /-- All is written, and the file is closed. -/
  | written
  /-- Something failed, and it is about to remove its temporary file. -/
  | failed
  | ended
  deriving DecidableEq

/-- Whether a job has its lock. -/
def Stage.isUnderway : Stage → Bool
  | .coming => false
  | .ended => false
  | _ => true

/-- Whether a job has its temporary file open, or filled. -/
def Stage.isFilling : Stage → Bool
  | .writing _ _ => true
  | .written => true
  | _ => false

/-- A job whose file went elsewhere, or nowhere. -/
def Stage.relocate (f : Location → Option Location) : Stage → Stage
  | .writing (some loc) count => .writing (f loc) count
  | x => x

/-- The next step of a job. -/
inductive Action
  | enter (i : Nat)
  | prepare (i : Nat)
  | create (i : Nat)
  /-- It writes the next bytes. -/
  | write (i size : Nat)
  /-- What it wrote reaches the disk, and it closes the file. -/
  | sync (i : Nat)
  | move (i : Nat)
  /-- A step fails for a reason that the files do not explain. -/
  | fail (i : Nat)
  | clean (i : Nat)
  deriving DecidableEq

/-- Files on which jobs are under way, which are told apart by numbers. -/
structure Press where
  files : Files
  stage : Nat → Stage := fun _ => .coming
  /-- The job that holds the lock of a slot. -/
  holder : Nat → Option Nat := fun _ => none

/-- Creates the directory of a path in files, unless it is the one the process works in. -/
def makeParentIn (p : Path) (fs : Files) : Option FileError × Files :=
  match p.parent? with
  | none => (none, fs)
  | some dir => if dir.text = "" then (none, fs) else fs.createDirectories dir

/-- Where a file is after what stood at one place was moved to another. What stood there is lost. -/
def followed (source destination loc : Location) : Option Location :=
  if loc = destination then none else if loc = source then some destination else some loc

/-- Where a file is after one was removed. -/
def lost (removed loc : Location) : Option Location := if loc = removed then none else some loc

namespace Press

/-- A job that comes to another stage. -/
def go (i : Nat) (x : Stage) (s : Press) : Press :=
  { s with stage := fun j => if j = i then x else s.stage j }

/-- A slot that is locked by a job, or unlocked. -/
def hand (slot : Nat) (x : Option Nat) (s : Press) : Press :=
  { s with holder := fun m => if m = slot then x else s.holder m }

/-- Open files that go elsewhere, or nowhere. -/
def relocate (f : Location → Option Location) (s : Press) : Press :=
  { s with stage := fun j => (s.stage j).relocate f }

/-- A job that ends and unlocks its slot. -/
def finish (i slot : Nat) (s : Press) : Press := (s.go i .ended).hand slot none

/-- One step of a job, if it can take it. -/
def step (jobs : Nat → Job) (s : Press) : Action → Option Press
  | .enter i =>
    match s.stage i, s.holder (jobs i).slot with
    | .coming, none => some ((s.go i .entered).hand (jobs i).slot (some i))
    | _, _ => none
  | .prepare i =>
    match s.stage i with
    | .entered =>
      match makeParentIn (jobs i).path s.files with
      | (none, files) => some ({ s with files }.go i .ready)
      | (some _, files) => some ({ s with files }.finish i (jobs i).slot)
    | _ => none
  | .create i =>
    match s.stage i with
    | .ready =>
      let t := temporary (jobs i).path
      match s.files.create t with
      | .ok files => some ({ s with files }.go i (.writing (some (s.files.place t)) 0))
      | .error _ => some (s.go i .failed)
    | _ => none
  | .write i size =>
    match s.stage i with
    | .writing file written =>
      if written + size ≤ (jobs i).contents.length then
        let piece := ((jobs i).contents.drop written).take size
        some ({ s with files := s.files.writeAt file written piece }.go i
          (.writing file (written + size)))
      else none
    | _ => none
  | .sync i =>
    match s.stage i with
    | .writing _ written =>
      if written = (jobs i).contents.length then some (s.go i .written) else none
    | _ => none
  | .move i =>
    match s.stage i with
    | .written =>
      let t := temporary (jobs i).path
      match s.files.move t (jobs i).path with
      | .ok files =>
        let follow := followed (s.files.place t) (s.files.place (jobs i).path)
        some (({ s with files }.relocate follow).finish i (jobs i).slot)
      | .error _ => some (s.go i .failed)
    | _ => none
  | .fail i =>
    match s.stage i with
    | .entered => some (s.finish i (jobs i).slot)
    | .ready => some (s.go i .failed)
    | .writing _ _ => some (s.go i .failed)
    | .written => some (s.go i .failed)
    | _ => none
  | .clean i =>
    match s.stage i with
    | .failed =>
      let t := temporary (jobs i).path
      match s.files.remove t with
      | .ok files =>
        some (({ s with files }.relocate (lost (s.files.place t))).finish i (jobs i).slot)
      | .error _ => some (s.finish i (jobs i).slot)
    | _ => none

/-- What steps lead to, the last one first, if each job can take its steps. -/
def after (jobs : Nat → Job) (fs : Files) : List Action → Option Press
  | [] => some { files := fs }
  | a :: earlier => (after jobs fs earlier).bind fun s => s.step jobs a

/-! ### What a step does -/

section Steps

variable {jobs : Nat → Job} {s s' : Press} {a : Action} {i j k : Nat}

/-- The stage that a job goes to. -/
@[simp] theorem stage_go (s : Press) (i : Nat) (x : Stage) : (s.go i x).stage i = x := if_pos rfl

/-- The stages of other jobs. -/
theorem stage_go_of_ne (s : Press) (x : Stage) (h : j ≠ i) : (s.go i x).stage j = s.stage j :=
  if_neg h

/-- Who writes to a file after files went elsewhere wrote to it before. -/
theorem relocate_eq_writing {f : Location → Option Location} {x : Stage} {file : Option Location}
    {count : Nat} (h : x.relocate f = .writing file count) :
    ∃ old, x = .writing old count ∧ file = old.bind f := by
  rw [Stage.relocate.eq_def] at h
  split at h
  · next loc count' =>
    obtain ⟨rfl, rfl⟩ := Stage.writing.inj h
    exact ⟨some loc, rfl, rfl⟩
  · next hnone =>
    rcases file with _ | loc
    · exact ⟨none, h, rfl⟩
    · exact absurd h (hnone loc count)

/-- Where files stay where they are, jobs do too. -/
@[simp] theorem relocate_some (x : Stage) : x.relocate some = x := by
  rw [Stage.relocate.eq_def]
  split <;> rfl

/-- Who has closed its file had closed it. -/
theorem relocate_eq_written {f : Location → Option Location} {x : Stage}
    (h : x.relocate f = .written) : x = .written := by
  rw [Stage.relocate.eq_def] at h
  split at h
  · cases h
  · exact h

/-- What a step of a job does to the files, and to the files that jobs have open. -/
inductive Moves (jobs : Nat → Job) (s : Press) (a : Action) (k : Nat) (s' : Press) : Prop
  /-- It goes on without a file, or stops; at most, directories are made. -/
  | passes (hfiles : Spares [] s.files s'.files) (hothers : ∀ j, j ≠ k → s'.stage j = s.stage j)
      (hself : (s'.stage k).isFilling = false)
  /-- It creates its temporary file, or empties what is there. -/
  | creates (hstage : s.stage k = .ready)
      (hfiles : Spares [s.files.place (temporary (jobs k).path)] s.files s'.files)
      (hempty : s'.files.contentsAt? (s.files.place (temporary (jobs k).path)) = some [])
      (hothers : ∀ j, j ≠ k → s'.stage j = s.stage j)
      (hself : s'.stage k = .writing (some (s.files.place (temporary (jobs k).path))) 0)
  /-- It writes the next bytes. -/
  | writes (file : Option Location) (written size : Nat)
      (hstage : s.stage k = .writing file written)
      (hsize : written + size ≤ (jobs k).contents.length)
      (hfiles : s'.files =
        s.files.writeAt file written (((jobs k).contents.drop written).take size))
      (hothers : ∀ j, j ≠ k → s'.stage j = s.stage j)
      (hself : s'.stage k = .writing file (written + size))
  /-- It closes the file that it has filled. -/
  | closes (file : Option Location)
      (hstage : s.stage k = .writing file (jobs k).contents.length) (hfiles : s'.files = s.files)
      (hothers : ∀ j, j ≠ k → s'.stage j = s.stage j) (hself : s'.stage k = .written)
  /-- It moves a directory that stands where its file was. -/
  | displaces (ha : a = .move k) (hstage : s.stage k = .written)
      (hdirectory : s.files.isDirectoryAt (s.files.place (temporary (jobs k).path)) = true)
  /-- It moves the file to its place. -/
  | moves (hstage : s.stage k = .written)
      (hfiles : Moved s.files (temporary (jobs k).path) (jobs k).path s'.files)
      (hothers : ∀ j, j ≠ k → s'.stage j = (s.stage j).relocate
        (followed (s.files.place (temporary (jobs k).path)) (s.files.place (jobs k).path)))
      (hself : s'.stage k = .ended)
  /-- It removes its temporary file. -/
  | cleans (hstage : s.stage k = .failed)
      (hdirectory : s.files.isDirectoryAt (s.files.place (temporary (jobs k).path)) = false)
      (hfiles : s'.files = s.files.drop (s.files.place (temporary (jobs k).path)))
      (hothers : ∀ j, j ≠ k → s'.stage j = (s.stage j).relocate
        (lost (s.files.place (temporary (jobs k).path))))
      (hself : s'.stage k = .ended)

/-- What a step does to locks: a job takes the free lock of its slot, or has it, and may give it
back. -/
inductive Locks (jobs : Nat → Job) (s : Press) (a : Action) (k : Nat) (s' : Press) : Prop
  | takes (ha : a = .enter k) (hfree : s.holder (jobs k).slot = none)
      (hunderway : ∀ j, j ≠ k → (s'.stage j).isUnderway = (s.stage j).isUnderway)
      (hholder : ∀ m, s'.holder m = if m = (jobs k).slot then some k else s.holder m)
  | keeps (hk : (s.stage k).isUnderway = true)
      (hunderway : ∀ j, (s'.stage j).isUnderway = (s.stage j).isUnderway)
      (hholder : s'.holder = s.holder)
  | gives (hk : (s.stage k).isUnderway = true) (hended : (s'.stage k).isUnderway = false)
      (hunderway : ∀ j, j ≠ k → (s'.stage j).isUnderway = (s.stage j).isUnderway)
      (hholder : ∀ m, s'.holder m = if m = (jobs k).slot then none else s.holder m)

/-- Where its file goes does not matter for the lock of a job. -/
@[simp] theorem isUnderway_relocate (f : Location → Option Location) (x : Stage) :
    (x.relocate f).isUnderway = x.isUnderway := by
  rw [Stage.relocate.eq_def]
  split <;> rfl

/-- A job that goes on keeps its lock. -/
theorem locks_go {files : Files} {x : Stage} (hk : (s.stage k).isUnderway = true)
    (hx : x.isUnderway = true) : Locks jobs s a k (({ s with files } : Press).go k x) := by
  refine .keeps hk (fun j => ?_) rfl
  by_cases hj : j = k
  · rw [hj, stage_go, hk, hx]
  · rw [stage_go_of_ne _ x hj]

/-- A job that ends gives its lock back. -/
theorem locks_finish {files : Files} (f : Location → Option Location)
    (hk : (s.stage k).isUnderway = true) :
    Locks jobs s a k ((({ s with files } : Press).relocate f).finish k (jobs k).slot) := by
  refine .gives hk (congrArg Stage.isUnderway (stage_go _ k .ended)) (fun j hj => ?_) fun m => rfl
  exact (congrArg Stage.isUnderway (stage_go_of_ne _ .ended hj)).trans (isUnderway_relocate f _)

/-- So does one that leaves all files where they are. -/
theorem locks_finish_here {files : Files} (hk : (s.stage k).isUnderway = true) :
    Locks jobs s a k (({ s with files } : Press).finish k (jobs k).slot) :=
  .gives hk (congrArg Stage.isUnderway (stage_go _ k .ended))
    (fun _ hj => congrArg Stage.isUnderway (stage_go_of_ne _ .ended hj)) fun _ => rfl

/-- Directories are made where nothing stands. -/
theorem spares_makeParentIn (p : Path) (fs : Files) : Spares [] fs (makeParentIn p fs).2 := by
  rw [makeParentIn]
  split
  · exact .refl [] fs
  · split
    · exact .refl [] fs
    · exact Files.spares_createDirectories fs _

/-- A job that goes on without a file makes directories at most. -/
theorem moves_go {files : Files} {x : Stage} (hfiles : Spares [] s.files files)
    (hx : x.isFilling = false) : Moves jobs s a k (({ s with files } : Press).go k x) :=
  .passes hfiles (fun _ hj => stage_go_of_ne _ x hj) (by rw [stage_go]; exact hx)

/-- So does one that stops. -/
theorem moves_finish {files : Files} (hfiles : Spares [] s.files files) :
    Moves jobs s a k (({ s with files } : Press).finish k (jobs k).slot) :=
  .passes hfiles (fun _ hj => stage_go_of_ne _ .ended hj)
    (congrArg Stage.isFilling (stage_go _ k .ended))

/-- A job enters once the lock of its slot is free. -/
theorem enter_moves (h : s.step jobs (.enter k) = some s') :
    Moves jobs s (.enter k) k s' ∧ Locks jobs s (.enter k) k s' := by
  rw [step] at h
  split at h
  · next hstage hfree =>
    obtain rfl := Option.some.inj h
    exact ⟨.passes (.refl [] _) (fun _ hj => stage_go_of_ne _ .entered hj)
      (congrArg Stage.isFilling (stage_go _ k .entered)), .takes rfl hfree
      (fun _ hj => congrArg Stage.isUnderway (stage_go_of_ne _ .entered hj)) fun _ => rfl⟩
  · cases h

/-- A job prepares the directory of its file, or stops. -/
theorem prepare_moves (h : s.step jobs (.prepare k) = some s') :
    Moves jobs s (.prepare k) k s' ∧ Locks jobs s (.prepare k) k s' := by
  rw [step] at h
  split at h
  · next hstage =>
    have hk : (s.stage k).isUnderway = true := by rw [hstage]; rfl
    have hmade := spares_makeParentIn (jobs k).path s.files
    split at h
    · next files hmake =>
      rw [hmake] at hmade
      obtain rfl := Option.some.inj h
      exact ⟨moves_go hmade rfl, locks_go hk rfl⟩
    · next cause files hmake =>
      rw [hmake] at hmade
      obtain rfl := Option.some.inj h
      exact ⟨moves_finish hmade, locks_finish_here hk⟩
  · cases h

/-- A job creates its temporary file, or has failed. -/
theorem create_moves (h : s.step jobs (.create k) = some s') :
    Moves jobs s (.create k) k s' ∧ Locks jobs s (.create k) k s' := by
  rw [step] at h
  split at h
  · next hstage =>
    have hk : (s.stage k).isUnderway = true := by rw [hstage]; rfl
    dsimp only at h
    split at h
    · next files hcreate =>
      obtain rfl := Option.some.inj h
      obtain ⟨hspares, hempty⟩ := Files.create_eq_ok hcreate
      exact ⟨.creates hstage hspares hempty (fun _ hj => stage_go_of_ne _ _ hj) (stage_go _ k _),
        locks_go hk rfl⟩
    · obtain rfl := Option.some.inj h
      exact ⟨moves_go (.refl [] _) rfl, locks_go hk rfl⟩
  · cases h

/-- A job writes to the file that it has open. -/
theorem write_moves {size : Nat} (h : s.step jobs (.write k size) = some s') :
    Moves jobs s (.write k size) k s' ∧ Locks jobs s (.write k size) k s' := by
  rw [step] at h
  split at h
  · next file count hstage =>
    have hk : (s.stage k).isUnderway = true := by rw [hstage]; rfl
    dsimp only at h
    split at h
    · next hsize =>
      obtain rfl := Option.some.inj h
      exact ⟨.writes file count size hstage hsize rfl (fun _ hj => stage_go_of_ne _ _ hj)
        (stage_go _ k _), locks_go hk rfl⟩
    · cases h
  · cases h

/-- A job closes the file that it has filled. -/
theorem sync_moves (h : s.step jobs (.sync k) = some s') :
    Moves jobs s (.sync k) k s' ∧ Locks jobs s (.sync k) k s' := by
  rw [step] at h
  split at h
  · next file count hstage =>
    have hk : (s.stage k).isUnderway = true := by rw [hstage]; rfl
    split at h
    · next hcount =>
      obtain rfl := Option.some.inj h
      exact ⟨.closes file (hcount ▸ hstage) rfl (fun _ hj => stage_go_of_ne _ _ hj)
        (stage_go _ k _), locks_go hk rfl⟩
    · cases h
  · cases h

/-- A job moves what stands where its temporary file was, or has failed. -/
theorem move_moves (h : s.step jobs (.move k) = some s') :
    Moves jobs s (.move k) k s' ∧ Locks jobs s (.move k) k s' := by
  rw [step] at h
  split at h
  · next hstage =>
    have hk : (s.stage k).isUnderway = true := by rw [hstage]; rfl
    dsimp only at h
    split at h
    · next files hmove =>
      obtain rfl := Option.some.inj h
      refine ⟨?_, locks_finish _ hk⟩
      cases hfile : s.files.isDirectoryAt (s.files.place (temporary (jobs k).path)) with
      | true => exact .displaces rfl hstage hfile
      | false =>
        have hne := Files.place_temporary_ne s.files (jobs k).path
        exact .moves hstage (Files.move_eq_ok hmove hfile hne)
          (fun _ hj => stage_go_of_ne _ .ended hj) (stage_go _ k .ended)
    · obtain rfl := Option.some.inj h
      exact ⟨moves_go (.refl [] _) rfl, locks_go hk rfl⟩
  · cases h

/-- A job that has no temporary file yet stops when it fails; another one has that to remove. -/
theorem fail_moves (h : s.step jobs (.fail k) = some s') :
    Moves jobs s (.fail k) k s' ∧ Locks jobs s (.fail k) k s' := by
  have hfails (hk : (s.stage k).isUnderway = true) (h : some (s.go k .failed) = some s') :
      Moves jobs s (.fail k) k s' ∧ Locks jobs s (.fail k) k s' := by
    obtain rfl := Option.some.inj h
    exact ⟨moves_go (.refl [] _) rfl, locks_go hk rfl⟩
  rw [step] at h
  split at h
  · next hstage =>
    obtain rfl := Option.some.inj h
    exact ⟨moves_finish (.refl [] _), locks_finish_here (by rw [hstage]; rfl)⟩
  · next hstage => exact hfails (by rw [hstage]; rfl) h
  · next hstage => exact hfails (by rw [hstage]; rfl) h
  · next hstage => exact hfails (by rw [hstage]; rfl) h
  · cases h

/-- A job that has failed removes what stands where its temporary file was, if it can, and stops. -/
theorem clean_moves (h : s.step jobs (.clean k) = some s') :
    Moves jobs s (.clean k) k s' ∧ Locks jobs s (.clean k) k s' := by
  rw [step] at h
  split at h
  · next hstage =>
    have hk : (s.stage k).isUnderway = true := by rw [hstage]; rfl
    dsimp only at h
    split at h
    · next files hremove =>
      obtain rfl := Option.some.inj h
      obtain ⟨hdirectory, rfl⟩ := Files.remove_eq_ok hremove
      exact ⟨.cleans hstage hdirectory rfl (fun _ hj => stage_go_of_ne _ .ended hj)
        (stage_go _ k .ended), locks_finish _ hk⟩
    · obtain rfl := Option.some.inj h
      exact ⟨moves_finish (.refl [] _), locks_finish_here hk⟩
  · cases h

/-- **Steps.** What a step of a job does. -/
theorem step_moves (h : s.step jobs a = some s') :
    ∃ k, Moves jobs s a k s' ∧ Locks jobs s a k s' := by
  cases a with
  | enter k => exact ⟨k, enter_moves h⟩
  | prepare k => exact ⟨k, prepare_moves h⟩
  | create k => exact ⟨k, create_moves h⟩
  | write k size => exact ⟨k, write_moves h⟩
  | sync k => exact ⟨k, sync_moves h⟩
  | move k => exact ⟨k, move_moves h⟩
  | fail k => exact ⟨k, fail_moves h⟩
  | clean k => exact ⟨k, clean_moves h⟩

end Steps

/-! ### One job -/

section Alone

variable {jobs : Nat → Job} {fs : Files} {s s' : Press} {as : List Action} {h : Host} {i : Nat}

/-- One more step. -/
theorem after_cons {a : Action} (h : after jobs fs as = some s) (hstep : s.step jobs a = some s') :
    after jobs fs (a :: as) = some s' := by
  rw [after, h]
  exact hstep

/-- The directory of a path on a quiet host is made in its files. -/
theorem makeParent_quiet (quiet : h.interference = []) (p : Path) :
    makeParent p h = match makeParentIn p h.files with
      | (some e, files) => (.error e, { h with files })
      | (none, files) => (.ok (), { h with files }) := by
  rw [makeParent, makeParentIn]
  cases p.parent? with
  | none => rfl
  | some dir =>
    dsimp only
    split
    · rfl
    · exact Access.createDirectories_quiet dir quiet

/-- A job that failed removes its temporary file where it can, and ends. -/
theorem clean_alone {x : Host} (quiet : x.interference = []) (hs : after jobs fs as = some s)
    (hstage : s.stage i = .failed) (hfiles : s.files = x.files) :
    ∃ as s, after jobs fs as = some s ∧ s.stage i = .ended ∧
      s.files = (Access.remove (temporary (jobs i).path) x).2.files := by
  refine ⟨.clean i :: as, ?_⟩
  rw [after, hs, Option.bind_some, step, hstage, Access.remove, Access.change_quiet _ quiet, hfiles]
  dsimp only
  cases x.files.remove (temporary (jobs i).path) with
  | ok files => exact ⟨_, rfl, stage_go _ i .ended, rfl⟩
  | error cause => exact ⟨_, rfl, stage_go _ i .ended, hfiles⟩

/-- A file that was created can be filled at once. -/
theorem append_of_create {t : Path} {a b : Files} (hcreate : fs.create t = .ok a) {contents : Bytes}
    (hb : b = a.writeAt (some (fs.place t)) 0 contents) :
    a.append t contents = .ok b ∧ b.isDirectoryAt (b.place t) = false := by
  obtain ⟨hspares, hempty⟩ := Files.create_eq_ok hcreate
  have hwhole : Bytes.overwrite [] 0 contents = contents := by simp [Bytes.overwrite]
  rw [Files.writeAt, hempty] at hb
  dsimp only at hb
  rw [hwhole] at hb
  subst hb
  refine ⟨Files.append_of_create hcreate contents, ?_⟩
  obtain ⟨hfull, hspares'⟩ := Files.contentsAt?_putFile hempty contents
  rw [Files.place_congr ((hspares.trans hspares').workDir.symm)]
  exact (Files.at?_of_contentsAt? (hfull ▸ rfl)).2

/-- A job that has created its temporary file fills it at once, and closes it. -/
theorem fill_alone {file : Option Location} {b : Files} (hs : after jobs fs as = some s)
    (hstage : s.stage i = .writing file 0)
    (hb : b = s.files.writeAt file 0 (jobs i).contents) :
    ∃ as s', after jobs fs as = some s' ∧ s'.stage i = .written ∧ s'.files = b := by
  let size := (jobs i).contents.length
  let filled : Press := { s with files := b }.go i (.writing file size)
  have hfills : s.step jobs (.write i size) = some filled := by
    simp [step, hstage, filled, size, hb]
  have hcloses : filled.step jobs (.sync i) = some (filled.go i .written) := by
    rw [step, stage_go]
    exact if_pos rfl
  exact ⟨_, _, after_cons (after_cons hs hfills) hcloses, stage_go _ i _, rfl⟩

/-- Steps on a quiet host are the changes of its files, up to the first that fails. -/
theorem runAll_cons_quiet (quiet : h.interference = []) (hnames : h.names = []) (x : Step)
    (rest : List Step) :
    runAll (x :: rest) h = match x.apply h.files with
      | .ok files => runAll rest { h with files }
      | .error e => (.error e, h) := by
  rw [runAll, Access.andThen, x.run_eq (Host.calm_of_quiet quiet hnames),
    Access.change_quiet _ quiet]
  cases x.apply h.files <;> rfl

/-- Nothing but the renaming is left to do on files that are filled. -/
theorem runAll_filled (quiet : h.interference = []) (hnames : h.names = []) (t p : Path) :
    runAll [.flush, .sync, .rename t p] h = match h.files.rename t p with
      | .ok files => (.ok (), { h with files })
      | .error e => (.error e, h) :=
  calc runAll [.flush, .sync, .rename t p] h
    _ = runAll [.sync, .rename t p] h := runAll_cons_quiet quiet hnames .flush _
    _ = runAll [.rename t p] h := runAll_cons_quiet quiet hnames .sync _
    _ = _ := runAll_cons_quiet quiet hnames (.rename t p) []

/-- A job that has filled its temporary file moves it, or removes it. -/
theorem move_alone (quiet : h.interference = []) (hs : after jobs fs as = some s)
    (hstage : s.stage i = .written) (hfiles : s.files = h.files)
    (hfile : h.files.isDirectoryAt (h.files.place (temporary (jobs i).path)) = false) :
    ∃ as s, after jobs fs as = some s ∧ s.stage i = .ended ∧
      s.files = (match h.files.rename (temporary (jobs i).path) (jobs i).path with
        | .ok files => { h with files }
        | .error _ => (Access.remove (temporary (jobs i).path) h).2).files := by
  have hmove : h.files.move (temporary (jobs i).path) (jobs i).path =
      h.files.rename (temporary (jobs i).path) (jobs i).path := by
    rw [Files.move]
    exact if_neg (by simp [hfile])
  have hmoves : s.step jobs (.move i) = _ := step.eq_def jobs s (.move i)
  simp only [hstage, hfiles, hmove] at hmoves
  cases hrename : h.files.rename (temporary (jobs i).path) (jobs i).path with
  | error cause =>
    simp only [hrename] at hmoves ⊢
    exact clean_alone quiet (after_cons hs hmoves) (stage_go _ i _) hfiles
  | ok files =>
    simp only [hrename] at hmoves ⊢
    exact ⟨_, _, after_cons hs hmoves, stage_go _ i .ended, rfl⟩

/-- A job whose directory is there does what is left to do. -/
theorem publish_ready (quiet : h.interference = []) (hnames : h.names = [])
    (hs : after jobs fs as = some s) (hstage : s.stage i = .ready) (hfiles : s.files = h.files) :
    ∃ as s, after jobs fs as = some s ∧ s.stage i = .ended ∧
      s.files = (match runAll (steps (jobs i).path (jobs i).contents) h with
        | (.ok (), h) => h
        | (.error _, h) => (Access.remove (temporary (jobs i).path) h).2).files := by
  have hcreates : s.step jobs (.create i) = _ := step.eq_def jobs s (.create i)
  simp only [hstage, hfiles] at hcreates
  rw [steps, runAll_cons_quiet quiet hnames, Step.apply]
  cases hcreate : h.files.create (temporary (jobs i).path) with
  | error cause =>
    simp only [hcreate] at hcreates ⊢
    exact clean_alone quiet (after_cons hs hcreates) (stage_go _ i _) hfiles
  | ok a =>
    simp only [hcreate] at hcreates ⊢
    obtain ⟨b, hb⟩ : ∃ b,
        b = a.writeAt (some (h.files.place (temporary (jobs i).path))) 0 (jobs i).contents :=
      ⟨_, rfl⟩
    obtain ⟨happend, hfile⟩ := append_of_create hcreate hb
    obtain ⟨as, s, hs, hstage, hfiles⟩ :=
      fill_alone (after_cons hs hcreates) (stage_go _ i _) hb
    obtain ⟨as, s, hs, hstage, hfiles⟩ :=
      move_alone (h := { h with files := b }) quiet hs hstage hfiles hfile
    refine ⟨as, s, hs, hstage, hfiles.trans ?_⟩
    rw [runAll_cons_quiet (by exact quiet) (by exact hnames), Step.apply]
    simp only [happend]
    rw [runAll_filled (by exact quiet) (by exact hnames)]
    cases b.rename (temporary (jobs i).path) (jobs i).path <;> rfl

/-- **One job.** A job that nobody disturbs publishes its contents as `publish` does. -/
theorem publish_alone (quiet : h.interference = []) (hnames : h.names = []) (jobs : Nat → Job)
    (i : Nat) :
    ∃ as s, after jobs h.files as = some s ∧ s.stage i = .ended ∧
      s.files = (publish (jobs i).path (jobs i).contents h).2.files := by
  let entered : Press :=
    (Press.go i .entered { files := h.files }).hand (jobs i).slot (some i)
  have hs : after jobs h.files [.enter i] = some entered := rfl
  have hstage : entered.stage i = .entered := stage_go _ i _
  have hprepares : entered.step jobs (.prepare i) = _ := step.eq_def jobs entered (.prepare i)
  have hfiles : entered.files = h.files := rfl
  simp only [hstage, hfiles] at hprepares
  rw [publish, makeParent_quiet quiet]
  rcases hmade : makeParentIn (jobs i).path h.files with ⟨_ | cause, files⟩
  · simp only [hmade] at hprepares ⊢
    obtain ⟨as, s, hs, hstage, hfiles⟩ :=
      publish_ready (h := { h with files }) quiet hnames (after_cons hs hprepares)
        (stage_go _ i _) rfl
    refine ⟨as, s, hs, hstage, hfiles.trans ?_⟩
    rcases runAll _ _ with ⟨_ | ⟨⟩, after⟩ <;> rfl
  · simp only [hmade] at hprepares ⊢
    exact ⟨_, _, after_cons hs hprepares, stage_go _ i .ended, rfl⟩

end Alone

/-! ### Locks -/

section Invariants

variable {jobs : Nat → Job} {fs : Files} {s s' : Press} {a : Action} {as : List Action}
  {i j k o : Nat}

/-- Who is under way holds the lock of its slot. -/
structure Locked (jobs : Nat → Job) (as : List Action) (s : Press) : Prop where
  holder : ∀ i, (s.stage i).isUnderway = true → s.holder (jobs i).slot = some i
  entered : ∀ i, (s.stage i).isUnderway = true → .enter i ∈ as

/-- A step keeps the locks. -/
theorem Locked.step (h : Locked jobs as s) (hlocks : Locks jobs s a k s') :
    Locked jobs (a :: as) s' := by
  cases hlocks with
  | takes ha hfree hunderway hholder =>
    refine ⟨fun i hi => ?_, fun i hi => ?_⟩
    · by_cases hik : i = k
      · rw [hholder, hik, if_pos rfl]
      · rw [hunderway i hik] at hi
        have hold := h.holder i hi
        rw [hholder, if_neg, hold]
        intro hslot
        rw [hslot, hfree] at hold
        cases hold
    · by_cases hik : i = k
      · rw [ha, hik]
        exact List.mem_cons_self
      · rw [hunderway i hik] at hi
        exact List.mem_cons_of_mem _ (h.entered i hi)
  | keeps hk hunderway hholder =>
    refine ⟨fun i hi => ?_, fun i hi => ?_⟩
    · rw [hunderway] at hi
      rw [hholder]
      exact h.holder i hi
    · rw [hunderway] at hi
      exact List.mem_cons_of_mem _ (h.entered i hi)
  | gives hk hended hunderway hholder =>
    have hne (i : Nat) (hi : (s'.stage i).isUnderway = true) : i ≠ k := by
      rintro rfl
      rw [hended] at hi
      cases hi
    refine ⟨fun i hi => ?_, fun i hi => ?_⟩
    · have hik := hne i hi
      rw [hunderway i hik] at hi
      have hold := h.holder i hi
      rw [hholder, if_neg, hold]
      intro hslot
      rw [hslot, h.holder k hk] at hold
      exact hik (Option.some.inj hold).symm
    · rw [hunderway i (hne i hi)] at hi
      exact List.mem_cons_of_mem _ (h.entered i hi)

/-- Two jobs under way are in two slots. -/
theorem Locked.slot_ne (h : Locked jobs as s) (hne : i ≠ j) (hi : (s.stage i).isUnderway = true)
    (hj : (s.stage j).isUnderway = true) : (jobs i).slot ≠ (jobs j).slot := by
  intro hslot
  have hholder := h.holder i hi
  rw [hslot, h.holder j hj] at hholder
  exact hne (Option.some.inj hholder).symm

/-! ### A file and its temporary file -/

/-- The place of a job's file. -/
def target (jobs : Nat → Job) (fs : Files) (i : Nat) : Location := fs.place (jobs i).path

/-- The place of its temporary file. -/
def scratch (jobs : Nat → Job) (fs : Files) (i : Nat) : Location :=
  fs.place (temporary (jobs i).path)

/-- A job other than `o` does not touch its file, unless it publishes the same one, and does not
touch its temporary file. -/
structure Apart (jobs : Nat → Job) (fs : Files) (o : Nat) (s : Press) : Prop where
  alone : ∀ i j, i ≠ j → (s.stage i).isUnderway = true → (s.stage j).isUnderway = true →
    scratch jobs fs i = scratch jobs fs o → scratch jobs fs j ≠ scratch jobs fs o
  clear : ∀ i, (s.stage i).isUnderway = true →
    scratch jobs fs i ≠ target jobs fs o ∧ target jobs fs i ≠ scratch jobs fs o

/-- A file that a job may have open beside the file of job `o` and its temporary file: its own, or
neither of them. -/
def Harmless (jobs : Nat → Job) (fs : Files) (o i : Nat) (loc : Location) : Prop :=
  loc = scratch jobs fs i ∨ loc ≠ target jobs fs o ∧ loc ≠ scratch jobs fs o

/-- What files have for a job at a stage, as long as jobs are apart from job `o`. -/
structure Accounts (jobs : Nat → Job) (fs : Files) (o : Nat) (files : Files) (i : Nat) (x : Stage) :
    Prop where
  /-- A job that fills the temporary file of job `o` has filled it so far. -/
  filling : ∀ file count, scratch jobs fs i = scratch jobs fs o → x = .writing file count →
    file = some (scratch jobs fs o) ∧
      files.contentsAt? (scratch jobs fs o) = some ((jobs i).contents.take count)
  filled : scratch jobs fs i = scratch jobs fs o → x = .written →
    files.contentsAt? (scratch jobs fs o) = some (jobs i).contents
  opened : ∀ loc count, x = .writing (some loc) count →
    (files.contentsAt? loc).isSome = true ∧ Harmless jobs fs o i loc

/-- A job that does not fill a file needs nothing. -/
theorem Accounts.of_isFilling {files : Files} {x : Stage} (hx : x.isFilling = false) :
    Accounts jobs fs o files i x := by
  refine ⟨fun file count _ hwriting => ?_, fun _ hwritten => ?_, fun loc count hwriting => ?_⟩
  · rw [hwriting] at hx
    cases hx
  · rw [hwritten] at hx
    cases hx
  · rw [hwriting] at hx
    cases hx

/-- What is true of the file of job `o`, as long as jobs are apart. -/
structure Whole (jobs : Nat → Job) (fs : Files) (o : Nat) (as : List Action) (s : Press) :
    Prop where
  workDir : s.files.workDir = fs.workDir
  /-- The file is as at first, or as a job published it. -/
  whole : s.files.contentsAt? (target jobs fs o) = fs.contentsAt? (target jobs fs o) ∨
    ∃ i, target jobs fs i = target jobs fs o ∧ .enter i ∈ as ∧
      s.files.contentsAt? (target jobs fs o) = some (jobs i).contents
  accounts : ∀ i, Accounts jobs fs o s.files i (s.stage i)

/-- In the beginning nothing has been done. -/
theorem Whole.initial (jobs : Nat → Job) (fs : Files) (o : Nat) :
    Whole jobs fs o [] { files := fs } :=
  ⟨rfl, .inl rfl, fun _ => .of_isFilling rfl⟩

namespace Whole

variable (h : Whole jobs fs o as s)
include h

/-- The places of jobs do not change. -/
theorem place_eq (p : Path) : s.files.place p = fs.place p := Files.place_congr h.workDir p

/-- Where nothing happens to the file, it stays whole. -/
theorem whole_of_eq
    (heq : s'.files.contentsAt? (target jobs fs o) = s.files.contentsAt? (target jobs fs o)) :
    s'.files.contentsAt? (target jobs fs o) = fs.contentsAt? (target jobs fs o) ∨
      ∃ i, target jobs fs i = target jobs fs o ∧ .enter i ∈ a :: as ∧
        s'.files.contentsAt? (target jobs fs o) = some (jobs i).contents := by
  rw [heq]
  refine h.whole.imp_right ?_
  rintro ⟨i, hi, hmem, hcontents⟩
  exact ⟨i, hi, List.mem_cons_of_mem _ hmem, hcontents⟩

/-- The other jobs need no more after a step of job `k`, if it keeps the temporary file where
others may fill it, and what they have open stays harmless. -/
theorem others {f : Location → Option Location} (hapart : Apart jobs fs o s)
    (hothers : ∀ j, j ≠ k → s'.stage j = (s.stage j).relocate f)
    (hkept : (f (scratch jobs fs o) = some (scratch jobs fs o) ∧
        s'.files.contentsAt? (scratch jobs fs o) = s.files.contentsAt? (scratch jobs fs o)) ∨
      (s.stage k).isUnderway = true ∧ scratch jobs fs k = scratch jobs fs o)
    (hopened : ∀ i, i ≠ k → (s.stage i).isUnderway = true → ∀ loc loc', f loc = some loc' →
      (s.files.contentsAt? loc).isSome = true → Harmless jobs fs o i loc →
        (s'.files.contentsAt? loc').isSome = true ∧ Harmless jobs fs o i loc')
    (hik : i ≠ k) : Accounts jobs fs o s'.files i (s'.stage i) := by
  have hold := h.accounts i
  have hkept (hi : (s.stage i).isUnderway = true)
      (hscratch : scratch jobs fs i = scratch jobs fs o) :
      f (scratch jobs fs o) = some (scratch jobs fs o) ∧
        s'.files.contentsAt? (scratch jobs fs o) = s.files.contentsAt? (scratch jobs fs o) :=
    hkept.resolve_right fun ⟨hk, hk'⟩ => hapart.alone i k hik hi hk hscratch hk'
  rw [hothers i hik]
  refine ⟨fun file count hi hwriting => ?_, fun hi hwritten => ?_, fun loc count hwriting => ?_⟩
  · obtain ⟨before, hbefore, rfl⟩ := relocate_eq_writing hwriting
    obtain ⟨rfl, hcontents⟩ := hold.filling before count hi hbefore
    obtain ⟨hf, heq⟩ := hkept (by rw [hbefore]; rfl) hi
    exact ⟨hf, heq.trans hcontents⟩
  · have hbefore := relocate_eq_written hwritten
    obtain ⟨-, heq⟩ := hkept (by rw [hbefore]; rfl) hi
    exact heq.trans (hold.filled hi hbefore)
  · obtain ⟨_ | before, hbefore, hf⟩ := relocate_eq_writing hwriting
    · cases hf
    · obtain ⟨hsome, hharmless⟩ := hold.opened before count hbefore
      exact hopened i hik (by rw [hbefore]; rfl) before loc hf.symm hsome hharmless

/-- So it is where files stay where they are, and none vanishes. -/
theorem others_here (hapart : Apart jobs fs o s)
    (hothers : ∀ j, j ≠ k → s'.stage j = s.stage j)
    (hkept : s'.files.contentsAt? (scratch jobs fs o) = s.files.contentsAt? (scratch jobs fs o) ∨
      (s.stage k).isUnderway = true ∧ scratch jobs fs k = scratch jobs fs o)
    (hstays : ∀ loc, (s.files.contentsAt? loc).isSome = true →
      (s'.files.contentsAt? loc).isSome = true)
    (hik : i ≠ k) : Accounts jobs fs o s'.files i (s'.stage i) := by
  refine h.others (f := some) hapart (fun j hj => ?_) (hkept.imp_left fun heq => ⟨rfl, heq⟩)
    (fun i _ _ loc loc' hloc hsome hharmless => ?_) hik
  · rw [hothers j hj, relocate_some]
  · obtain rfl := Option.some.inj hloc
    exact ⟨hstays loc hsome, hharmless⟩

/-- A job passes on. -/
theorem passes (hapart : Apart jobs fs o s) (hfiles : Spares [] s.files s'.files)
    (hothers : ∀ j, j ≠ k → s'.stage j = s.stage j) (hself : (s'.stage k).isFilling = false) :
    Whole jobs fs o (a :: as) s' := by
  have hcontents (loc : Location) : s'.files.contentsAt? loc = s.files.contentsAt? loc :=
    hfiles.contentsAt?_eq (by simp)
  refine ⟨hfiles.workDir.symm.trans h.workDir, h.whole_of_eq (hcontents _), fun i => ?_⟩
  by_cases hik : i = k
  · exact .of_isFilling (hik ▸ hself)
  · refine h.others_here hapart hothers (.inl (hcontents _)) (fun loc hsome => ?_) hik
    rw [hcontents]
    exact hsome

/-- A job creates its temporary file. -/
theorem creates (hapart : Apart jobs fs o s) (hstage : s.stage k = .ready)
    (hfiles : Spares [scratch jobs fs k] s.files s'.files)
    (hempty : s'.files.contentsAt? (scratch jobs fs k) = some [])
    (hothers : ∀ j, j ≠ k → s'.stage j = s.stage j)
    (hself : s'.stage k = .writing (some (scratch jobs fs k)) 0) :
    Whole jobs fs o (a :: as) s' := by
  have hk : (s.stage k).isUnderway = true := by rw [hstage]; rfl
  have helse {loc : Location} (hloc : loc ≠ scratch jobs fs k) :
      s'.files.contentsAt? loc = s.files.contentsAt? loc :=
    hfiles.contentsAt?_eq (by simpa using hloc)
  refine ⟨hfiles.workDir.symm.trans h.workDir, h.whole_of_eq (helse (hapart.clear k hk).1.symm),
    fun i => ?_⟩
  by_cases hik : i = k
  · rw [hik, hself]
    refine ⟨fun file count hscratch hwriting => ?_, fun _ hwritten => ?_,
      fun loc count hwriting => ?_⟩
    · obtain ⟨rfl, rfl⟩ := Stage.writing.inj hwriting
      exact ⟨congrArg some hscratch, hscratch ▸ hempty⟩
    · cases hwritten
    · obtain ⟨hloc, -⟩ := Stage.writing.inj hwriting
      obtain rfl := Option.some.inj hloc
      exact ⟨by rw [hempty]; rfl, .inl rfl⟩
  · refine h.others_here hapart hothers ?_ (fun loc hsome => ?_) hik
    · by_cases hscratch : scratch jobs fs k = scratch jobs fs o
      · exact .inr ⟨hk, hscratch⟩
      · exact .inl (helse (Ne.symm hscratch))
    · by_cases heq : loc = scratch jobs fs k
      · rw [heq, hempty]
        rfl
      · rw [helse heq]
        exact hsome

/-- A job writes to the file that it has open. -/
theorem writes (hapart : Apart jobs fs o s) {file : Option Location} {count size : Nat}
    (hstage : s.stage k = .writing file count) (hsize : count + size ≤ (jobs k).contents.length)
    (hfiles : s'.files = s.files.writeAt file count (((jobs k).contents.drop count).take size))
    (hothers : ∀ j, j ≠ k → s'.stage j = s.stage j)
    (hself : s'.stage k = .writing file (count + size)) :
    Whole jobs fs o (a :: as) s' := by
  have hk : (s.stage k).isUnderway = true := by rw [hstage]; rfl
  have hold := h.accounts k
  rw [hstage] at hold
  -- What it has open is its own temporary file, or neither of the two files.
  have hopen {loc : Location} (hfile : file = some loc) :
      loc ≠ target jobs fs o ∧
        (loc = scratch jobs fs o → scratch jobs fs k = scratch jobs fs o) := by
    obtain ⟨-, rfl | ⟨htarget, hscratch⟩⟩ := hold.opened loc count (by rw [hfile])
    · exact ⟨(hapart.clear k hk).1, id⟩
    · exact ⟨htarget, fun heq => absurd heq hscratch⟩
  have helse {loc : Location} (hloc : file ≠ some loc) :
      s'.files.contentsAt? loc = s.files.contentsAt? loc := by
    rw [hfiles]
    cases file with
    | none => rfl
    | some other =>
      exact (Files.spares_writeAt s.files other _ _).contentsAt?_eq (by simpa [eq_comm] using hloc)
  have hthere {loc : Location} {old : Bytes} (hfile : file = some loc)
      (hcontents : s.files.contentsAt? loc = some old) :
      s'.files.contentsAt? loc =
        some (Bytes.overwrite old count (((jobs k).contents.drop count).take size)) := by
    rw [hfiles, hfile]
    exact Files.contentsAt?_writeAt hcontents _ _
  have hstays (loc : Location) (hsome : (s.files.contentsAt? loc).isSome = true) :
      (s'.files.contentsAt? loc).isSome = true := by
    by_cases hfile : file = some loc
    · obtain ⟨old, hcontents⟩ := Option.isSome_iff_exists.mp hsome
      rw [hthere hfile hcontents]
      rfl
    · rw [helse hfile]
      exact hsome
  have hworkDir : s'.files.workDir = s.files.workDir := by
    rw [hfiles]
    cases file with
    | none => rfl
    | some other => exact (Files.spares_writeAt s.files other _ _).workDir.symm
  refine ⟨hworkDir.trans h.workDir, h.whole_of_eq (helse fun hfile => (hopen hfile).1 rfl),
    fun i => ?_⟩
  by_cases hik : i = k
  · rw [hik, hself]
    refine ⟨fun file' count' hscratch hwriting => ?_, fun _ hwritten => ?_,
      fun loc count' hwriting => ?_⟩
    · obtain ⟨rfl, rfl⟩ := Stage.writing.inj hwriting
      obtain ⟨hfile, hcontents⟩ := hold.filling file count hscratch rfl
      exact ⟨hfile, by rw [hthere hfile hcontents, Bytes.overwrite_take hsize]⟩
    · cases hwritten
    · obtain ⟨hfile, -⟩ := Stage.writing.inj hwriting
      obtain ⟨hsome, hharmless⟩ := hold.opened loc count (by rw [hfile])
      exact ⟨hstays loc hsome, hharmless⟩
  · refine h.others_here hapart hothers ?_ hstays hik
    by_cases hfile : file = some (scratch jobs fs o)
    · exact .inr ⟨hk, (hopen hfile).2 rfl⟩
    · exact .inl (helse hfile)

/-- A job closes the file that it has filled. -/
theorem closes (hapart : Apart jobs fs o s) {file : Option Location}
    (hstage : s.stage k = .writing file (jobs k).contents.length) (hfiles : s'.files = s.files)
    (hothers : ∀ j, j ≠ k → s'.stage j = s.stage j) (hself : s'.stage k = .written) :
    Whole jobs fs o (a :: as) s' := by
  refine ⟨by rw [hfiles]; exact h.workDir, h.whole_of_eq (by rw [hfiles]), fun i => ?_⟩
  by_cases hik : i = k
  · rw [hik, hself, hfiles]
    refine ⟨nofun, fun hscratch _ => ?_, nofun⟩
    have hfull := ((h.accounts k).filling file _ hscratch hstage).2
    rwa [List.take_length] at hfull
  · exact h.others_here hapart hothers (.inl (by rw [hfiles])) (fun loc hsome => hfiles ▸ hsome) hik

/-- A job moves its temporary file to its place. -/
theorem moves (hapart : Apart jobs fs o s) (hlocked : Locked jobs as s)
    (hnamed : (jobs o).path.HasName) (hstage : s.stage k = .written)
    (hfiles : Moved s.files (temporary (jobs k).path) (jobs k).path s'.files)
    (hothers : ∀ j, j ≠ k → s'.stage j = (s.stage j).relocate
      (followed (scratch jobs fs k) (target jobs fs k)))
    (hself : s'.stage k = .ended) : Whole jobs fs o (a :: as) s' := by
  have hk : (s.stage k).isUnderway = true := by rw [hstage]; rfl
  have hclear := hapart.clear k hk
  have hsource : s.files.place (temporary (jobs k).path) = scratch jobs fs k := h.place_eq _
  have hdestination : s.files.place (jobs k).path = target jobs fs k := h.place_eq _
  have helse {loc : Location} (hs : loc ≠ scratch jobs fs k) (hd : loc ≠ target jobs fs k) :
      s'.files.contentsAt? loc = s.files.contentsAt? loc :=
    hfiles.contentsAt?_eq (hsource ▸ hs) (hdestination ▸ hd)
  have hthere : s'.files.contentsAt? (target jobs fs k) =
      s.files.contentsAt? (scratch jobs fs k) := by
    rw [← hsource, ← hdestination]
    exact hfiles.contentsAt?_place
  -- What is moved to the place of the file is moved from its temporary file.
  have hshared (htarget : target jobs fs k = target jobs fs o) :
      scratch jobs fs k = scratch jobs fs o :=
    Files.place_temporary_eq hnamed hfiles.named htarget
  refine ⟨hfiles.workDir.trans h.workDir, ?_, fun i => ?_⟩
  · by_cases htarget : target jobs fs k = target jobs fs o
    · have hscratch := hshared htarget
      refine .inr ⟨k, htarget, List.mem_cons_of_mem _ (hlocked.entered k hk), ?_⟩
      rw [← htarget, hthere, hscratch]
      exact (h.accounts k).filled hscratch hstage
    · exact h.whole_of_eq (helse hclear.1.symm (Ne.symm htarget))
  · by_cases hik : i = k
    · exact .of_isFilling (by rw [hik, hself]; rfl)
    refine h.others hapart hothers ?_ (fun i hik hi loc loc' hfollowed hsome hharmless => ?_) hik
    · by_cases hscratch : scratch jobs fs k = scratch jobs fs o
      · exact .inr ⟨hk, hscratch⟩
      · refine .inl ⟨?_, helse (Ne.symm hscratch) hclear.2.symm⟩
        rw [followed, if_neg hclear.2.symm, if_neg (Ne.symm hscratch)]
    · rw [followed] at hfollowed
      split at hfollowed
      · cases hfollowed
      next hd =>
        split at hfollowed
        · next hs =>
          -- The file was moved while it was open.
          obtain rfl := Option.some.inj hfollowed
          subst hs
          refine ⟨by rw [hthere]; exact hsome, .inr ⟨fun htarget => ?_, hclear.2⟩⟩
          have hscratch := hshared htarget
          rcases hharmless with hown | ⟨-, hother⟩
          · exact hapart.alone i k hik hi hk (hown.symm.trans hscratch) hscratch
          · exact hother hscratch
        · next hs =>
          obtain rfl := Option.some.inj hfollowed
          rw [helse hs hd]
          exact ⟨hsome, hharmless⟩

/-- A job removes its temporary file. -/
theorem cleans (hapart : Apart jobs fs o s) (hstage : s.stage k = .failed)
    (hdirectory : s.files.isDirectoryAt (scratch jobs fs k) = false)
    (hfiles : s'.files = s.files.drop (scratch jobs fs k))
    (hothers : ∀ j, j ≠ k → s'.stage j = (s.stage j).relocate (lost (scratch jobs fs k)))
    (hself : s'.stage k = .ended) : Whole jobs fs o (a :: as) s' := by
  have hk : (s.stage k).isUnderway = true := by rw [hstage]; rfl
  have hspares := Files.spares_drop hdirectory
  rw [← hfiles] at hspares
  have helse {loc : Location} (hloc : loc ≠ scratch jobs fs k) :
      s'.files.contentsAt? loc = s.files.contentsAt? loc :=
    hspares.contentsAt?_eq (by simpa using hloc)
  refine ⟨hspares.workDir.symm.trans h.workDir,
    h.whole_of_eq (helse (hapart.clear k hk).1.symm), fun i => ?_⟩
  by_cases hik : i = k
  · exact .of_isFilling (by rw [hik, hself]; rfl)
  refine h.others hapart hothers ?_ (fun i hik hi loc loc' hlost hsome hharmless => ?_) hik
  · by_cases hscratch : scratch jobs fs k = scratch jobs fs o
    · exact .inr ⟨hk, hscratch⟩
    · exact .inl ⟨if_neg (Ne.symm hscratch), helse (Ne.symm hscratch)⟩
  · rw [lost] at hlost
    split at hlost
    · cases hlost
    · next hs =>
      obtain rfl := Option.some.inj hlost
      rw [helse hs]
      exact ⟨hsome, hharmless⟩

/-- **A step of jobs that are apart**, if it does not move a directory. -/
theorem step (hapart : Apart jobs fs o s) (hlocked : Locked jobs as s)
    (hnamed : (jobs o).path.HasName) (hmoves : Moves jobs s a k s')
    (hdisplaces : a = .move k → s.stage k = .written →
      s.files.isDirectoryAt (scratch jobs fs k) = false) :
    Whole jobs fs o (a :: as) s' := by
  have hscratch : s.files.place (temporary (jobs k).path) = scratch jobs fs k := h.place_eq _
  have htarget : s.files.place (jobs k).path = target jobs fs k := h.place_eq _
  cases hmoves with
  | passes hfiles hothers hself => exact h.passes hapart hfiles hothers hself
  | creates hstage hfiles hempty hothers hself =>
    rw [hscratch] at hfiles hempty hself
    exact h.creates hapart hstage hfiles hempty hothers hself
  | writes file count size hstage hsize hfiles hothers hself =>
    exact h.writes hapart hstage hsize hfiles hothers hself
  | closes file hstage hfiles hothers hself => exact h.closes hapart hstage hfiles hothers hself
  | displaces ha hstage hdirectory =>
    rw [hscratch, hdisplaces ha hstage] at hdirectory
    cases hdirectory
  | moves hstage hfiles hothers hself =>
    rw [hscratch, htarget] at hothers
    exact h.moves hapart hlocked hnamed hstage hfiles hothers hself
  | cleans hstage hdirectory hfiles hothers hself =>
    rw [hscratch] at hdirectory hfiles hothers
    exact h.cleans hapart hstage hdirectory hfiles hothers hself

end Whole

/-! ### Runs -/

/-- Two jobs in different slots had the temporary file of job `o` for theirs, and were under way at
once. -/
def Crossed (jobs : Nat → Job) (fs : Files) (as : List Action) (o : Nat) : Prop :=
  ∃ later earlier s i j, as = later ++ earlier ∧ after jobs fs earlier = some s ∧
    (jobs i).slot ≠ (jobs j).slot ∧
    (s.stage i).isUnderway = true ∧ (s.stage j).isUnderway = true ∧
    scratch jobs fs i = scratch jobs fs o ∧ scratch jobs fs j = scratch jobs fs o

/-- A job has the file of job `o` for its temporary file, or publishes its temporary file. -/
def Mistaken (jobs : Nat → Job) (fs : Files) (as : List Action) (o : Nat) : Prop :=
  ∃ k, .enter k ∈ as ∧
    (scratch jobs fs k = target jobs fs o ∨ target jobs fs k = scratch jobs fs o)

/-- A job moved a directory that stood where it had filled its temporary file. With the directory
goes all that is in it. -/
def Displaced (jobs : Nat → Job) (fs : Files) (as : List Action) : Prop :=
  ∃ later earlier s k, as = later ++ .move k :: earlier ∧ after jobs fs earlier = some s ∧
    s.stage k = .written ∧ s.files.isDirectoryAt (scratch jobs fs k) = true

/-- Jobs that crossed have crossed. -/
theorem Crossed.append (h : Crossed jobs fs as o) (later : List Action) :
    Crossed jobs fs (later ++ as) o := by
  obtain ⟨between, earlier, s, i, j, rfl, h⟩ := h
  exact ⟨later ++ between, earlier, s, i, j, (List.append_assoc ..).symm, h⟩

/-- Jobs that crossed publish one file, in different slots. -/
theorem Crossed.exists_target_eq (h : Crossed jobs fs as o) (hnamed : (jobs o).path.HasName) :
    ∃ i j, (jobs i).slot ≠ (jobs j).slot ∧ target jobs fs i = target jobs fs o ∧
      target jobs fs j = target jobs fs o := by
  obtain ⟨later, earlier, s, i, j, -, -, hslot, -, -, hi, hj⟩ := h
  exact ⟨i, j, hslot, (Files.place_eq_of_temporary hnamed hi).2,
    (Files.place_eq_of_temporary hnamed hj).2⟩

/-- A file that was mistaken was mistaken. -/
theorem Mistaken.append (h : Mistaken jobs fs as o) (later : List Action) :
    Mistaken jobs fs (later ++ as) o := by
  obtain ⟨k, hk, h⟩ := h
  exact ⟨k, List.mem_append_right later hk, h⟩

/-- A directory that was displaced was displaced. -/
theorem Displaced.cons (h : Displaced jobs fs as) : Displaced jobs fs (a :: as) := by
  obtain ⟨later, earlier, s, k, rfl, h⟩ := h
  exact ⟨a :: later, earlier, s, k, rfl, h⟩

/-- Jobs that did not cross, and mistook nothing, are apart. -/
theorem Locked.apart (h : Locked jobs as s) (hafter : after jobs fs as = some s)
    (hcrossed : ¬Crossed jobs fs as o) (hmistaken : ¬Mistaken jobs fs as o) :
    Apart jobs fs o s where
  alone i j hne hi hj hscratch hscratch' :=
    hcrossed ⟨[], as, s, i, j, rfl, hafter, h.slot_ne hne hi hj, hi, hj, hscratch, hscratch'⟩
  clear i hi :=
    ⟨fun heq => hmistaken ⟨i, h.entered i hi, .inl heq⟩,
      fun heq => hmistaken ⟨i, h.entered i hi, .inr heq⟩⟩

/-- Jobs take turns at their slots. -/
theorem locked_after (h : after jobs fs as = some s) : Locked jobs as s := by
  induction as generalizing s with
  | nil =>
    obtain rfl := Option.some.inj h
    exact ⟨nofun, nofun⟩
  | cons a as ih =>
    obtain ⟨before, hbefore, hstep⟩ := Option.bind_eq_some_iff.mp h
    obtain ⟨k, -, hlocks⟩ := step_moves hstep
    exact (ih hbefore).step hlocks

/-- **Runs.** The file of a job stays whole as long as jobs are apart. -/
theorem whole_after (hnamed : (jobs o).path.HasName) (h : after jobs fs as = some s) :
    Whole jobs fs o as s ∨
      Crossed jobs fs as o ∨ Mistaken jobs fs as o ∨ Displaced jobs fs as := by
  induction as generalizing s with
  | nil =>
    obtain rfl := Option.some.inj h
    exact .inl (.initial jobs fs o)
  | cons a as ih =>
    obtain ⟨before, hbefore, hstep⟩ := Option.bind_eq_some_iff.mp h
    obtain ⟨k, hmoves, -⟩ := step_moves hstep
    by_cases hdisplaced : Displaced jobs fs (a :: as)
    · exact .inr (.inr (.inr hdisplaced))
    by_cases hcrossed : Crossed jobs fs as o
    · exact .inr (.inl (hcrossed.append [a]))
    by_cases hmistaken : Mistaken jobs fs as o
    · exact .inr (.inr (.inl (hmistaken.append [a])))
    have hold := (ih hbefore).resolve_right (by
      rintro (hraced | hraced | hraced)
      · exact hcrossed hraced
      · exact hmistaken hraced
      · exact hdisplaced hraced.cons)
    have hlocked := locked_after hbefore
    refine .inl (hold.step (hlocked.apart hbefore hcrossed hmistaken) hlocked hnamed hmoves
      fun ha hstage => ?_)
    rw [← Bool.not_eq_true]
    intro hdirectory
    exact hdisplaced ⟨[], as, before, k, by rw [ha]; rfl, hbefore, hstage, hdirectory⟩

/-- **Whole files.** Jobs of any builds publish files in steps of any order, and a slot's lock is
all that keeps them apart. At any time the file of a job is as it was at first, or has all that some
job was to publish there, unless two jobs of different slots were under way at once with one
temporary file, or the temporary file of a job is a file that another one publishes, or a directory
stood where a job was to move its temporary file from. -/
theorem whole_unless_crossed (h : after jobs fs as = some s) (hnamed : (jobs o).path.HasName) :
    s.files.contentsAt? (fs.place (jobs o).path) = fs.contentsAt? (fs.place (jobs o).path) ∨
    (∃ i, fs.place (jobs i).path = fs.place (jobs o).path ∧ .enter i ∈ as ∧
      s.files.contentsAt? (fs.place (jobs o).path) = some (jobs i).contents) ∨
    Crossed jobs fs as o ∨ Mistaken jobs fs as o ∨ Displaced jobs fs as := by
  rcases whole_after hnamed h with hwhole | hraced
  · exact hwhole.whole.imp_right .inl
  · exact .inr (.inr hraced)

/-- A directory is displaced only after jobs crossed, or mistook a file. -/
theorem raced_of_displaced (hnamed : ∀ i, .enter i ∈ as → (jobs i).path.HasName)
    (h : Displaced jobs fs as) : ∃ k, Crossed jobs fs as k ∨ Mistaken jobs fs as k := by
  induction hlength : as.length using Nat.strong_induction_on generalizing as with
  | _ n ih =>
    obtain ⟨later, earlier, s, k, rfl, hs, hstage, hdirectory⟩ := h
    have hk : (s.stage k).isUnderway = true := by rw [hstage]; rfl
    have hentered := (locked_after hs).entered k hk
    have hnamed' (i : Nat) (hi : .enter i ∈ earlier) : (jobs i).path.HasName :=
      hnamed i (List.mem_append_right later (List.mem_cons_of_mem _ hi))
    have hlater {m : Nat} (h : Crossed jobs fs earlier m ∨ Mistaken jobs fs earlier m) :
        Crossed jobs fs (later ++ .move k :: earlier) m ∨
          Mistaken jobs fs (later ++ .move k :: earlier) m := by
      rw [List.append_cons]
      exact h.imp (fun hcrossed => hcrossed.append _) fun hmistaken => hmistaken.append _
    rcases whole_after (hnamed' k hentered) hs with hwhole | hcrossed | hmistaken | hdisplaced
    · -- What it has filled is no directory.
      have hfilled := (hwhole.accounts k).filled rfl hstage
      have hfile := (Files.at?_of_contentsAt? (Option.isSome_iff_exists.mpr ⟨_, hfilled⟩)).2
      exact absurd (hdirectory.symm.trans hfile) (by simp)
    · exact ⟨k, hlater (.inl hcrossed)⟩
    · exact ⟨k, hlater (.inr hmistaken)⟩
    · have hshorter : earlier.length < n := by
        rw [← hlength, List.length_append, List.length_cons]
        omega
      obtain ⟨m, hm⟩ := ih _ hshorter hnamed' hdisplaced rfl
      exact ⟨m, hlater hm⟩

/-- **Outputs of one spelling.** Where the builds of a project spell each file in one way, and give
no output the name of a temporary file, an output is as it was at first or has all that some build
was to publish there. -/
theorem whole_of_spelled {ρ φ υ : Type} {r : Registry ρ φ υ} {project : String}
    {options : Nat → BuildOptions} {contents : Nat → Bytes}
    (h : after (fun i => .ofBuild r project (options i) (contents i)) fs as = some s)
    (hnamed : ∀ i, (options i).outputPath.HasName)
    (hspelled : ∀ i j, fs.place (options i).outputPath = fs.place (options j).outputPath →
      (options i).output = (options j).output)
    (hclear : ∀ i j, fs.place (temporary (options i).outputPath) ≠
      fs.place (options j).outputPath) :
    s.files.contentsAt? (fs.place (options o).outputPath) =
        fs.contentsAt? (fs.place (options o).outputPath) ∨
      ∃ i, fs.place (options i).outputPath = fs.place (options o).outputPath ∧ .enter i ∈ as ∧
        s.files.contentsAt? (fs.place (options o).outputPath) = some (contents i) := by
  obtain ⟨jobs, hjobs⟩ : ∃ jobs : Nat → Job,
      jobs = fun i => .ofBuild r project (options i) (contents i) := ⟨_, rfl⟩
  rw [← hjobs] at h
  have hcrossed (k : Nat) : ¬Crossed jobs fs as k := by
    intro hcrossed
    subst hjobs
    obtain ⟨i, j, hslot, hi, hj⟩ := hcrossed.exists_target_eq (hnamed k)
    exact hslot (congrArg (fun output => (r.entry project output).1)
      (hspelled i j (hi.trans hj.symm)))
  have hmistaken (k : Nat) : ¬Mistaken jobs fs as k := by
    subst hjobs
    rintro ⟨i, -, heq | heq⟩
    · exact hclear i k heq
    · exact hclear k i heq.symm
  have hnamed' (i : Nat) : (jobs i).path.HasName := by
    rw [hjobs]
    exact hnamed i
  rcases whole_after (hnamed' o) h with hwhole | hraced | hraced | hdisplaced
  · have hwhole := hwhole.whole
    subst hjobs
    exact hwhole
  · exact absurd hraced (hcrossed o)
  · exact absurd hraced (hmistaken o)
  · obtain ⟨k, hraced | hraced⟩ := raced_of_displaced (fun i _ => hnamed' i) hdisplaced
    · exact absurd hraced (hcrossed k)
    · exact absurd hraced (hmistaken k)

end Invariants

end Press

namespace Spellings

open Press

/-- A build of an output. -/
def options (output : String) : BuildOptions := { workDirectory := "/p", output }

/-- What each job builds. -/
def output : Nat → String
  | 0 => "Game.dll"
  | 1 => "./Game.dll"
  | _ => "Game.dll.kiln-tmp"

/-- A registry where each of them has been built. -/
def registry : Registry Unit Unit Unit :=
  [0, 1, 2].foldl (fun r i => (r.entry "/p" (output i)).2) {}

def jobs (i : Nat) : Job :=
  .ofBuild registry "/p" (options (output i)) (if i = 1 then [5, 6] else [1, 2, 3, 4])

/-- The second job empties the file that the first one fills, and writes to it when it was moved. -/
def crossing : List Action :=
  [.enter 0, .prepare 0, .create 0, .enter 1, .prepare 1, .create 1, .write 0 4, .sync 0, .move 0,
    .write 1 2, .sync 1, .move 1, .clean 1].reverse

/-- The first job takes an output for its temporary file. -/
def mistaking : List Action :=
  [.enter 2, .prepare 2, .create 2, .write 2 4, .sync 2, .move 2,
    .enter 0, .prepare 0, .create 0].reverse

/-- What is left of a job's output. -/
def left (as : List Action) (i : Nat) : Option (Option Bytes) :=
  (after jobs {} as).map fun s => s.files.contentsAt? (target jobs {} i)

/-- **A torn output.** Of two builds whose outputs are one file, one writes over the start of what
the other has published. A build whose temporary file is an output empties that output. -/
theorem torn :
    (jobs 0).slot ≠ (jobs 1).slot ∧ target jobs {} 1 = target jobs {} 0 ∧
      left crossing 0 = some (some [5, 6, 3, 4]) ∧ left mistaking 2 = some (some []) := by
  decide +kernel

/-- No directory is ever made where the temporary file is. -/
theorem not_displaced_crossing : ¬Displaced jobs {} crossing := by
  rintro ⟨later, earlier, before, k, heq, hbefore, -, hdirectory⟩
  have hnone : ∀ n < 14, (after jobs {} (crossing.drop n)).all fun s =>
      !s.files.isDirectoryAt (scratch jobs {} 0) := by
    decide +kernel
  have hplace : scratch jobs {} k = scratch jobs {} 0 := by
    have hmem : .move k ∈ crossing := by
      rw [heq]
      exact List.mem_append_right later List.mem_cons_self
    obtain rfl | rfl : k = 1 ∨ k = 0 := by simpa [crossing] using hmem
    · decide +kernel
    · rfl
  have hdrop : crossing.drop (later.length + 1) = earlier := by
    rw [heq, List.append_cons]
    exact List.drop_left' (by simp)
  have hlength : later.length + 1 < 14 := by
    have hlength := congrArg List.length heq
    rw [List.length_append, List.length_cons, crossing, List.length_reverse] at hlength
    simp only [List.length_cons, List.length_nil] at hlength
    omega
  have hfile := hnone _ hlength
  rw [hdrop, hbefore, Option.all_some, ← hplace, hdirectory] at hfile
  cases hfile

/-- Neither job takes the output for its temporary file, or the other way round. -/
theorem not_mistaken_crossing : ¬Mistaken jobs {} crossing 0 := by
  rintro ⟨k, hk, hmistaken⟩
  obtain rfl | rfl : k = 1 ∨ k = 0 := by simpa [crossing] using hk
  · exact absurd hmistaken (by decide +kernel)
  · exact absurd hmistaken (by decide +kernel)

/-- A torn output is one of jobs that crossed: two slots publish it. -/
theorem crossed_of_torn :
    ∃ s, after jobs {} crossing = some s ∧ (jobs 0).path.HasName ∧ Crossed jobs {} crossing 0 ∧
      ∃ i j, (jobs i).slot ≠ (jobs j).slot ∧ target jobs {} i = target jobs {} 0 ∧
        target jobs {} j = target jobs {} 0 := by
  have hleft : left crossing 0 = some (some [5, 6, 3, 4]) := by decide +kernel
  obtain ⟨s, hs, hcontents⟩ := Option.map_eq_some_iff.mp hleft
  have hnamed : (jobs 0).path.HasName :=
    ⟨some "/p".toList, "Game.dll".toList, ⟨by decide +kernel, by decide +kernel⟩,
      by decide +kernel, by decide +kernel, by decide +kernel⟩
  suffices hcrossed : Crossed jobs {} crossing 0 from
    ⟨s, hs, hnamed, hcrossed, hcrossed.exists_target_eq hnamed⟩
  rcases whole_unless_crossed hs hnamed with hfirst | ⟨i, -, -, hother⟩ | hcrossed | hmistaken |
    hdisplaced
  · cases hcontents.symm.trans hfirst
  · -- What is there has four bytes, and begins as what the second job was to publish.
    have hsome := Option.some.inj (hcontents.symm.trans hother)
    by_cases hi : i = 1
    · subst hi
      exact absurd hsome (by decide)
    · exact absurd (hsome.trans (if_neg hi)) (by decide)
  · exact hcrossed
  · exact absurd hmistaken not_mistaken_crossing
  · exact absurd hdisplaced not_displaced_crossing

end Spellings
end IncrementalBuild.Publish
