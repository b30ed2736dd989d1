import IncrementalBuild.Proofs.Engine.Staging
import IncrementalBuild.Proofs.Text.Lossy
/-!
# Reports on staged sources

What a compiler prints is read line by line. A line that holds a report becomes one diagnostic,
whatever stands in other lines; where it names a staged file the diagnostic names the source that
was staged there, and any other name stays as it is. Together with what staging does this makes
sources and staged files stand for each other.

## Main definitions

* `Command.linesOf`, `Command.printed?` — the lines of an output, and the report that a line holds.
* `Command.Faithful` — staged files and sources stand for each other in one scratch directory.

## Main results

* `Command.diagnostics_eq` — diagnostics are the reports that the lines hold, in their order.
* `Command.diagnostics_congr_of_noise` — lines without reports make no difference.
* `Command.shownFile_of_mem`, `Command.shownFile_of_ne` — the way back from staged files.
* `Command.staging_faithful` — staging and reports, in one statement.
-/

namespace IncrementalBuild.Command

variable {σ : Type} {command : Compiler} {u : CommandUnit} {format : Option SymbolFormat}
  {dir : Path} {files : List Staged} {s : Staged} {name : String}

/-! ### Lines -/

/-- The lines of what a compiler printed. -/
def linesOf (output : Bytes) : List Bytes := output.splitOn 0x0A

/-- The report that a line holds. -/
def printed? (line : Bytes) : Option PrintedReport :=
  (Json.decode printedReport (Blank.trim line.toLossyString.toList)).toOption

/-- **Diagnostics** are the reports that the lines hold, in their order. Text that is not UTF-8 on
one line does not change what is read from another. -/
theorem diagnostics_eq (files : List Staged) (output : Bytes) :
    diagnostics files output.toLossyString =
      ((linesOf output).filterMap printed?).map (PrintedReport.diagnostic files) := by
  have hline : ∀ line : Bytes, reportOfLine? files (Bytes.lossyChars line) =
      (printed? line).map (PrintedReport.diagnostic files) := fun line => by
    rw [reportOfLine?, printed?, Bytes.toList_toLossyString]
    cases Json.decode printedReport (Blank.trim (Bytes.lossyChars line)) <;> rfl
  have htrim : ∀ line, reportOfLine? files (Blank.trim line) = reportOfLine? files line :=
    fun line => by rw [reportOfLine?, Blank.trim_trim, reportOfLine?]
  rw [diagnostics, Blank.filterMap_lines rfl htrim, Blank.pieces_eq_splitOnP,
    ← List.splitOn_eq_splitOnP, Bytes.toList_toLossyString, Bytes.splitOn_lossyChars,
    List.filterMap_map, List.map_filterMap]
  exact List.filterMap_congr fun line _ => hline line

/-- **Noise.** Lines without reports make no difference, wherever they stand. -/
theorem diagnostics_congr_of_noise {quiet noisy : Bytes} {before noise after : List Bytes}
    (hquiet : linesOf quiet = before ++ after) (hnoisy : linesOf noisy = before ++ noise ++ after)
    (hnoise : ∀ line ∈ noise, printed? line = none) (files : List Staged) :
    diagnostics files noisy.toLossyString = diagnostics files quiet.toLossyString := by
  rw [diagnostics_eq, diagnostics_eq, hquiet, hnoisy, List.filterMap_append, List.filterMap_append,
    List.filterMap_append, List.filterMap_eq_nil_iff.mpr hnoise, List.append_nil]

/-! ### Names -/

/-- Staged files have different texts. -/
theorem nodup_texts_stage (dir : Path) (u : CommandUnit) :
    ((stage dir u).map fun s => s.file.text).Nodup := by
  refine List.Nodup.of_map (fun text => Path.components ⟨text⟩) ?_
  have hfiles := (List.nodup_cons.mp (List.nodup_cons.mp (apart_stage dir u)).2).2
  rw [List.map_map] at hfiles ⊢
  exact hfiles

/-- **A staged file** is shown as its source. -/
theorem shownFile_of_mem (hs : s ∈ stage dir u) :
    shownFile (stage dir u) s.file.text = s.source.text := by
  have hfind : (stage dir u).find? (fun t => t.file.text == s.file.text) = some s := by
    cases hfind : (stage dir u).find? fun t => t.file.text == s.file.text with
    | none => exact absurd (beq_self_eq_true _) (List.find?_eq_none.mp hfind s hs)
    | some t =>
        have ht := List.mem_of_find?_eq_some hfind
        have htext := List.find?_some hfind
        rw [List.inj_on_of_nodup_map (nodup_texts_stage dir u) ht hs (eq_of_beq htext)]
  rw [shownFile, hfind]
  rfl

/-- Any other file is shown as it is. -/
theorem shownFile_of_ne (h : ∀ s ∈ files, s.file.text ≠ name) : shownFile files name = name := by
  rw [shownFile, List.find?_eq_none.mpr fun s hs => by simpa using h s hs]
  rfl

/-! ### Staging and reports -/

/-- In one scratch directory, the staged files of a unit and its sources stand for each other. -/
structure Faithful (command : Compiler) (u : CommandUnit) (format : Option SymbolFormat)
    (dir : Path) : Prop where
  /-- The staged files are those of all sources with their texts, in path order. -/
  sources : (stage dir u).map (fun s => (s.source, s.text)) = u.sources.entries
  order : ((stage dir u).map Staged.source).Pairwise fun p q => p.before q = true
  apart : Path.Apart (binaryFile dir :: symbolFile dir :: (stage dir u).map Staged.file)
  /-- The compiler is given them last. -/
  arguments : ∃ front, ∀ files,
    arguments command dir u format files = front ++ files.map fun s => s.file.text
  /-- A report on a staged file is one on its source. -/
  staged : ∀ s ∈ stage dir u, ∀ r : PrintedReport, r.file = some s.file.text →
    (r.diagnostic (stage dir u)).location =
      some ⟨s.source.text, r.line.getD 1, r.column.getD 1⟩
  /-- A report on another file is one on that file. -/
  others : ∀ (r : PrintedReport) (name : String), r.file = some name →
    (∀ s ∈ stage dir u, s.file.text ≠ name) →
      (r.diagnostic (stage dir u)).location = some ⟨name, r.line.getD 1, r.column.getD 1⟩

/-- **Staging** is faithful in every directory. -/
theorem faithful_of_ordered (command : Compiler) (hu : u.Ordered)
    (format : Option SymbolFormat) (dir : Path) : Faithful command u format dir where
  sources := sources_stage dir u
  order := by
    have hsources := congrArg (List.map Prod.fst) (sources_stage dir u)
    rw [List.map_map] at hsources
    exact hsources ▸ hu
  apart := apart_stage dir u
  arguments := ⟨_, fun _ => rfl⟩
  staged s hs r hr := by
    rw [PrintedReport.diagnostic, hr, Option.map_some, shownFile_of_mem hs]
  others r name hr hname := by
    rw [PrintedReport.diagnostic, hr, Option.map_some, shownFile_of_ne hname]

/-- **Staging and reports.** Whatever the sources of a unit are called and however many there are,
staged files and sources stand for each other: that is how the compiler is run, what it finds in the
files when it starts, and how its reports are understood, line by line. -/
theorem staging_faithful (command : Compiler) (hu : u.Ordered)
    (format : Option SymbolFormat) :
    (∀ dir, Faithful command u format dir) ∧
    (∀ (dir : Path) (w w' : World σ), writeStaged (stage dir u) w = (.ok ⟨⟩, w') →
      (∀ s ∈ stage dir u, w.host.files.place s.file ∉ w.host.savedPlaces) →
        ∀ s ∈ stage dir u, w'.host.enter.2.Shows s.file (Bytes.ofString s.text)) ∧
    (∀ (w w' : World σ) (out : EmitOutput), emit command u format w = (.ok out, w') →
      ∃ dir staged run, Emission command u format w dir staged run out) ∧
    (∀ (files : List Staged) (output : Bytes), diagnostics files output.toLossyString =
      ((linesOf output).filterMap printed?).map (PrintedReport.diagnostic files)) ∧
    ∀ (quiet noisy : Bytes) (before noise after : List Bytes),
      linesOf quiet = before ++ after → linesOf noisy = before ++ noise ++ after →
        (∀ line ∈ noise, printed? line = none) → ∀ files,
          diagnostics files noisy.toLossyString = diagnostics files quiet.toLossyString := by
  refine ⟨faithful_of_ordered command hu format, fun dir w w' hwritten hsaved s hs => ?_,
    fun w w' out => exists_emission, diagnostics_eq,
    fun quiet noisy before noise after => diagnostics_congr_of_noise⟩
  obtain ⟨htouches, hshows, hnames⟩ :=
    shows_of_writeStaged hwritten (nodup_places_stage w.host.files dir u) hsaved
  refine (w'.host.touches_enter).shows (fun hmem => hsaved s hs ?_) (hshows s hs)
  exact htouches.savedPlaces_subset hnames (htouches.place_eq s.file ▸ hmem)

/-! ### Two sources of one name -/

namespace Namesakes

/-- Two sources with the same file name. -/
def sources : CommandUnit := unitOf [⟨⟨"b/x.k"⟩, "two"⟩, ⟨⟨"a/x.k"⟩, "one"⟩] [] {}

/-- A compiler with a report on the last file that it is given, among other lines. -/
def compiler : CompilerCommand :=
  { program := ⟨"/bin/sh"⟩
    args := ["-c", "for f; do echo $f; done; echo '\x7b\"severity\":\"error\"," ++
      "\"message\":\"odd\",\"file\":\"'$f'\",\"line\":3\x7d'; exit 3", "cc"] }

/-- Both are staged with their texts, and the report on the last staged file is one on the source
that comes last in path order. -/
theorem reported_at_source :
    sources.Ordered ∧
    (∃ out w' dir staged run, emit compiler sources none shellWorld = (.ok out, w') ∧
      Emission compiler sources none shellWorld dir staged run out ∧
      Faithful compiler sources none dir ∧
      out.diagnostics = [⟨.error, "", "odd", some ⟨"b/x.k", 3, 1⟩, false⟩]) ∧
    ∃ w' : World Unit, writeStaged (stage ⟨"/tmp"⟩ sources) shellWorld = (.ok ⟨⟩, w') ∧
      ∀ s ∈ stage ⟨"/tmp"⟩ sources, w'.host.enter.2.Shows s.file (Bytes.ofString s.text) := by
  have hordered : sources.Ordered := ordered_unitOf _ _ _
  obtain ⟨hfaithful, hwriting, hcourse, -, -⟩ :=
    staging_faithful (σ := Unit) compiler hordered none
  refine ⟨hordered, ?_, ?_⟩
  · have hout : (emit compiler sources none shellWorld).1 =
        .ok ⟨[], none, [⟨.error, "", "odd", some ⟨"b/x.k", 3, 1⟩, false⟩], false⟩ := by
      decide +kernel
    obtain ⟨w', hemit⟩ := exists_left hout
    obtain ⟨dir, staged, run, hemission⟩ := hcourse shellWorld w' _ hemit
    exact ⟨_, w', dir, staged, run, hemit, hemission, hfaithful dir, rfl⟩
  · have hwritten : (writeStaged (stage ⟨"/tmp"⟩ sources) shellWorld).1 = .ok ⟨⟩ := by
      decide +kernel
    obtain ⟨w', hwrite⟩ := exists_left hwritten
    have hsaved : shellWorld.host.savedPlaces = [] := rfl
    refine ⟨w', hwrite, hwriting _ shellWorld w' hwrite fun s _ hmem => ?_⟩
    rw [hsaved] at hmem
    exact absurd hmem List.not_mem_nil

end Namesakes
end IncrementalBuild.Command
