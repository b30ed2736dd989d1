import IncrementalBuild.Engine.Command
import IncrementalBuild.Proofs.Host.Saves
import IncrementalBuild.Proofs.Host.Siblings
import IncrementalBuild.Proofs.Text.Decimal
/-!
# Staged sources

Every source of a unit has a staged file of its own in the scratch directory, which is neither
another source's nor one that the compiler writes. The files hold the texts of the sources when the
compiler starts, and it is given them in path order, behind everything else.

## Main definitions

* `CommandUnit.Ordered` — the sources of a unit are in path order.
* `Command.scratchNames` — the names of the files in a scratch directory.
* `Command.Emission` — the course of an emission that ended with an output.
* `Command.shellWorld` — a small host on which scripts are run.

## Main results

* `Command.ordered_unitOf`, `Command.ordered_edit` — units are built and stay in path order.
* `Command.numberOf_stagedName` — a staged file's name tells the number of its source.
* `Command.apart_stage` — staged files are apart from each other and from what the compiler writes.
* `Command.shows_of_writeStaged` — staged files hold the texts of their sources.
* `Command.exists_emission` — how an emission goes that ends with an output.
-/

namespace IncrementalBuild

variable {σ α : Type}

/-- The sources of a unit are in path order. -/
def CommandUnit.Ordered (u : CommandUnit) : Prop := u.sources.Ordered

namespace Command

variable {n : Nat} {source dir : Path} {u : CommandUnit}

/-- Units are built in path order. -/
theorem ordered_unitOf (sources : List ParsedSource) (references : List Path)
    (settings : UnitSettings) : (unitOf sources references settings).Ordered :=
  PathMap.ordered_ofList _

/-- They stay in path order when sources are put in and taken out. -/
theorem ordered_edit (command : Compiler) (hu : u.Ordered) (f : ParsedSource) (s : σ) :
    ((engine command).addSource f u s).1.Ordered ∧
      ((engine command).removeSource f u s).1.Ordered :=
  ⟨PathMap.Ordered.insert hu f.path f.text, PathMap.Ordered.erase hu f.path⟩

/-! ### Names of staged files -/

/-- A padded number has digits alone. -/
theorem isDigit_of_mem_fiveDigits {c : Char} (h : c ∈ (fiveDigits n).toList) :
    c.isDigit = true := by
  rw [fiveDigits, String.toList_ofList] at h
  rcases List.mem_append.mp h with h | h
  · rw [List.eq_of_mem_replicate h]
    rfl
  · exact Decimal.isDigit_of_mem_toString h

/-- Zeros in front of a number do not count, however many digits it has. -/
theorem ofDigitChars_fiveDigits (n : Nat) :
    Nat.ofDigitChars 10 (fiveDigits n).toList 0 = n := by
  have hzeros : ∀ k, Nat.ofDigitChars 10 (List.replicate k '0' ++ (toString n).toList) 0 =
      Nat.ofDigitChars 10 (toString n).toList 0 := by
    intro k
    induction k with
    | zero => rfl
    | succ k ih =>
        rw [List.replicate_succ, List.cons_append, Nat.ofDigitChars_cons]
        exact ih
  rw [fiveDigits, String.toList_ofList, hzeros, Nat.toString_eq_repr, Nat.toList_repr]
  exact Nat.ofDigitChars_ten_toDigits

/-- The number that a staged file's name starts with. -/
def numberOf (name : List Char) : Nat := Nat.ofDigitChars 10 (name.takeWhile (· != '_')) 0

/-- **Numbers.** The name of a staged file tells the number of its source. -/
theorem numberOf_stagedName (n : Nat) (source : Path) :
    numberOf (stagedName n source).toList = n := by
  have hdigits : ∀ c ∈ (fiveDigits n).toList, (c != '_') = true := by
    intro c hc
    rw [bne_iff_ne]
    rintro rfl
    exact absurd (isDigit_of_mem_fiveDigits hc) (by decide)
  rw [numberOf, stagedName, String.toList_append, String.toList_append, List.append_assoc,
    List.takeWhile_append_of_pos hdigits]
  simp [ofDigitChars_fiveDigits]

/-! ### Files of a scratch directory -/

/-- The names of the staged files of a unit. -/
def stagedNames (u : CommandUnit) : List String :=
  u.sources.entries.zipIdx.map fun e => stagedName e.2 e.1.1

/-- The names of all files that an emission knows in its scratch directory: what the compiler
writes, and what it reads. -/
def scratchNames (u : CommandUnit) : List String := "out.bin" :: "out.sym" :: stagedNames u

/-- The name of a staged file has no separator. -/
theorem not_mem_stagedName (n : Nat) (source : Path) : '/' ∉ (stagedName n source).toList := by
  rw [stagedName, String.toList_append, String.toList_append]
  simp only [List.mem_append, not_or]
  refine ⟨⟨fun h => absurd (isDigit_of_mem_fiveDigits h) (by decide), by decide⟩, ?_⟩
  cases hname : source.fileName? with
  | none => decide
  | some name => exact Path.not_mem_fileName? hname

/-- It is a name. -/
theorem isName_stagedName (n : Nat) (source : Path) :
    Path.IsName (stagedName n source).toList := by
  have hdigits : 5 ≤ (fiveDigits n).toList.length := by
    rw [fiveDigits, String.toList_ofList, List.length_append, List.length_replicate]
    omega
  have hlength : 2 < (stagedName n source).toList.length := by
    rw [stagedName, String.toList_append, String.toList_append, List.length_append,
      List.length_append]
    omega
  rw [← List.nil_append (stagedName n source).toList]
  exact Path.isName_append [] hlength

/-- All names in a scratch directory are names. -/
theorem isName_of_mem_scratchNames {name : String} (h : name ∈ scratchNames u) :
    '/' ∉ name.toList ∧ Path.IsName name.toList := by
  rcases List.mem_cons.mp h with rfl | h
  · exact ⟨by decide, ⟨by decide, by decide, by decide⟩⟩
  · rcases List.mem_cons.mp h with rfl | h
    · exact ⟨by decide, ⟨by decide, by decide, by decide⟩⟩
    · obtain ⟨e, -, rfl⟩ := List.mem_map.mp h
      exact ⟨not_mem_stagedName _ _, isName_stagedName _ _⟩

/-- **No name is used twice**, however many sources there are and whatever they are called. -/
theorem nodup_scratchNames (u : CommandUnit) : (scratchNames u).Nodup := by
  have hstaged : ∀ name ∈ stagedNames u, '_' ∈ name.toList := by
    intro name hname
    obtain ⟨e, -, rfl⟩ := List.mem_map.mp hname
    rw [stagedName, String.toList_append, String.toList_append]
    exact List.mem_append_left _ (List.mem_append_right _ (by decide))
  have hnumbers : (stagedNames u).map (fun name => numberOf name.toList) =
      List.range' 0 u.sources.entries.length := by
    rw [stagedNames, List.map_map, ← List.zipIdx_map_snd]
    refine List.map_congr_left fun e _ => ?_
    rw [Function.comp_apply, numberOf_stagedName]
  have hnodup : (stagedNames u).Nodup := by
    refine List.Nodup.of_map (fun name => numberOf name.toList) ?_
    rw [hnumbers]
    exact List.nodup_range'
  refine List.nodup_cons.mpr ⟨fun h => ?_, List.nodup_cons.mpr ⟨fun h => ?_, hnodup⟩⟩
  · rcases List.mem_cons.mp h with h | h
    · exact absurd h (by decide)
    · exact absurd (hstaged _ h) (by decide)
  · exact absurd (hstaged _ h) (by decide)

/-- Staging goes through the sources in their order. -/
theorem stageFrom_eq (dir : Path) (n : Nat) (entries : List (Path × String)) :
    stageFrom dir n entries = (entries.zipIdx n).map fun e =>
      ⟨dir.join ⟨stagedName e.2 e.1.1⟩, e.1.1, e.1.2⟩ := by
  induction entries generalizing n with
  | nil => rfl
  | cons e rest ih =>
      obtain ⟨source, text⟩ := e
      rw [stageFrom, ih, List.zipIdx_cons, List.map_cons]

/-- Every source is staged, once and with its text. -/
theorem sources_stage (dir : Path) (u : CommandUnit) :
    (stage dir u).map (fun s => (s.source, s.text)) = u.sources.entries := by
  rw [stage, stageFrom_eq, List.map_map]
  exact List.zipIdx_map_fst 0 _

/-- The staged files have the staged names. -/
theorem files_stage (dir : Path) (u : CommandUnit) :
    (stage dir u).map Staged.file = (stagedNames u).map fun name => dir.join ⟨name⟩ := by
  rw [stage, stageFrom_eq, stagedNames, List.map_map, List.map_map]
  rfl

/-- **Staged files are apart** from each other and from what the compiler writes. -/
theorem apart_stage (dir : Path) (u : CommandUnit) :
    Path.Apart (binaryFile dir :: symbolFile dir :: (stage dir u).map Staged.file) := by
  rw [files_stage]
  exact Path.apart_join dir (fun name => isName_of_mem_scratchNames) (nodup_scratchNames u)

/-- They are at different places. -/
theorem nodup_places_stage (fs : Files) (dir : Path) (u : CommandUnit) :
    ((stage dir u).map fun s => fs.place s.file).Nodup := by
  have hplaces : ((scratchNames u).map fun name => fs.place (dir.join ⟨name⟩)).Nodup :=
    Files.nodup_places_join fs dir (fun name => isName_of_mem_scratchNames) (nodup_scratchNames u)
  have hfiles : (stage dir u).map (fun s => fs.place s.file) =
      (stagedNames u).map fun name => fs.place (dir.join ⟨name⟩) := by
    have hmap := congrArg (List.map fs.place) (files_stage dir u)
    rwa [List.map_map, List.map_map] at hmap
  rw [hfiles]
  exact (List.nodup_cons.mp (List.nodup_cons.mp hplaces).2).2

/-! ### Writing staged files -/

variable {command : Compiler} {format : Option SymbolFormat} {files : List Staged}
  {w w' : World σ} {out : EmitOutput} {run : Finished}

/-- An access that ended with a value did so at the host. -/
theorem access_eq_ok {a : Access α} {cause : FileError → BuildError} {v : α}
    (h : (Task.access a cause : Task σ α) w = (.ok v, w')) : a w.host = (.ok v, w'.host) := by
  obtain ⟨h, -⟩ := Task.onHost_eq_ok h
  split at h
  · next hdone =>
      obtain ⟨hv, rfl⟩ := Prod.mk.inj h
      rw [hdone, Except.ok.inj hv]
  · exact absurd h (by simp)

/-- Writing staged files is writing the first one and then the others. -/
theorem writeStaged_cons {s : Staged} (h : writeStaged (s :: files) w = (.ok ⟨⟩, w')) :
    ∃ w₁ : World σ, Access.write s.file (Bytes.ofString s.text) w.host = (.ok (), w₁.host) ∧
      writeStaged files w₁ = (.ok ⟨⟩, w') := by
  obtain ⟨values, w₂, hall, hdone⟩ := Task.bind_eq_ok h
  obtain ⟨⟨⟩, w₁, hfirst, hall⟩ := Task.bind_eq_ok hall
  obtain ⟨others, w₃, hrest, hboth⟩ := Task.bind_eq_ok hall
  obtain ⟨-, rfl⟩ := Task.pure_eq_ok hboth
  refine ⟨w₁, access_eq_ok hfirst, ?_⟩
  rw [writeStaged, Task.bind_apply, hrest]
  exact hdone

/-- **Staged files** hold the texts of their sources, when they are at different places and nobody
else saves a file there, under whatever name. -/
theorem shows_of_writeStaged (h : writeStaged files w = (.ok ⟨⟩, w'))
    (hplaces : (files.map fun s => w.host.files.place s.file).Nodup)
    (hsaved : ∀ s ∈ files, w.host.files.place s.file ∉ w.host.savedPlaces) :
    w.host.Touches ((files.map fun s => w.host.files.place s.file) ++ w.host.savedPlaces) w'.host ∧
      (∀ s ∈ files, w'.host.Shows s.file (Bytes.ofString s.text)) ∧
        w'.host.names = w.host.names := by
  induction files generalizing w with
  | nil =>
      obtain ⟨-, rfl⟩ := Task.pure_eq_ok h
      exact ⟨.refl _ _, fun _ hs => absurd hs List.not_mem_nil, rfl⟩
  | cons s rest ih =>
      obtain ⟨w₁, hwrite, hrest⟩ := writeStaged_cons h
      obtain ⟨hnew, hplaces⟩ := List.nodup_cons.mp hplaces
      obtain ⟨hsaved, hsavedRest⟩ := List.forall_mem_cons.mp hsaved
      obtain ⟨hfirst, hshown, hnames⟩ := Access.write_eq_ok hwrite
      have hsubset := hfirst.savedPlaces_subset hnames
      obtain ⟨htouches, hshows, hlater⟩ := ih hrest
        (by simpa only [hfirst.place_eq] using hplaces)
        (fun t ht hmem => hsavedRest t ht (hfirst.place_eq t.file ▸ hsubset hmem))
      simp only [hfirst.place_eq] at htouches
      refine ⟨(hfirst.mono ?_).trans (htouches.mono ?_), List.forall_mem_cons.mpr ⟨?_, hshows⟩,
        hlater.trans hnames⟩
      · rw [List.map_cons, List.cons_append]
        exact List.cons_subset_cons _ (List.subset_append_right _ _)
      · rw [List.map_cons, List.cons_append]
        exact List.subset_cons_of_subset _ (List.append_subset.mpr
          ⟨List.subset_append_left _ _, List.subset_append_of_subset_right _ hsubset⟩)
      · refine htouches.shows ?_ hshown
        rw [hfirst.place_eq, List.mem_append, not_or]
        exact ⟨hnew, fun hmem => hsaved (hsubset hmem)⟩

/-! ### Emissions -/

/-- The course of an emission that ended with an output: the compiler was run where the sources had
been staged, and what it wrote was taken. -/
structure Emission (command : Compiler) (u : CommandUnit) (format : Option SymbolFormat)
    (w : World σ) (dir : Path) (staged : World σ) (run : Finished) (out : EmitOutput) : Prop where
  staging : ∃ started : World σ, Access.makeScratch w.host = (.ok dir, started.host) ∧
    writeStaged (stage dir u) started = (.ok ⟨⟩, staged)
  taking : ∃ ran left done : World σ,
    Access.run command.runner command.program.text
        (arguments command dir u format (stage dir u)) staged.host = (.ok run, ran.host) ∧
      takeBinary dir run.status.succeeded ran = (.ok out.binary, left) ∧
      takeSymbols dir format left = (.ok out.symbols, done)
  succeeded : out.succeeded = run.status.succeeded
  diagnostics : out.diagnostics = reportsOf (stage dir u) run

/-- A task in a scratch directory that ended with a value did so in a new one, which is removed
after it. -/
theorem inScratch_eq_ok {t : Path → Task σ α} {a : α} (h : inScratch t w = (.ok a, w')) :
    ∃ (dir : Path) (started done : World σ),
      Access.makeScratch w.host = (.ok dir, started.host) ∧ t dir started = (.ok a, done) ∧
        w'.host = (Access.dropScratch dir done.host).2 := by
  obtain ⟨dir, started, hscratch, h⟩ := Task.bind_eq_ok h
  obtain ⟨hvalue, rfl⟩ := Prod.mk.inj h
  exact ⟨dir, started, (t dir started).2, access_eq_ok hscratch, Prod.ext hvalue rfl, rfl⟩

/-- **Emissions** that end with an output take that course. -/
theorem exists_emission (h : emit command u format w = (.ok out, w')) :
    ∃ dir staged run, Emission command u format w dir staged run out := by
  obtain ⟨dir, started, done, hscratch, hdone, -⟩ := inScratch_eq_ok h
  obtain ⟨⟨⟩, staged, hstaging, hdone⟩ := Task.bind_eq_ok hdone
  obtain ⟨run, ran, hrun, hdone⟩ := Task.bind_eq_ok hdone
  obtain ⟨binary, left, hbinary, hdone⟩ := Task.bind_eq_ok hdone
  obtain ⟨symbols, last, hsymbols, hdone⟩ := Task.bind_eq_ok hdone
  obtain ⟨rfl, rfl⟩ := Task.pure_eq_ok hdone
  exact ⟨dir, staged, run, ⟨started, hscratch, hstaging⟩,
    ⟨ran, left, _, access_eq_ok hrun, hbinary, hsymbols⟩, rfl, rfl⟩

/-! ### A host for compilers that are scripts -/

/-- Who knows how a task ends need not know the world that it leaves. -/
theorem exists_left {t : Task σ α} {outcome : Except Failure α} (h : (t w).1 = outcome) :
    ∃ w', t w = (outcome, w') :=
  ⟨(t w).2, Prod.ext h rfl⟩

/-- A host with a shell and a directory for scratch files. -/
def shellWorld : World Unit :=
  { host :=
      { files :=
          { entries :=
              [(["bin"], .directory), (["tmp"], .directory),
                (["bin", "sh"], .file (Program.toolBytes "sh") .epoch true)] } }
    engine := () }

end Command
end IncrementalBuild
