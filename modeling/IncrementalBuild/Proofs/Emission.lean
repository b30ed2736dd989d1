import IncrementalBuild.Proofs.OutputState
import IncrementalBuild.Proofs.Publish
/-!
# What an emission writes

An emission first publishes the binary and then writes its symbols: not at all, at the one path
or the other, or in the compiler's own format to be converted. On a calm host, what stands in the
end at the paths of the binary and of the symbols follows from what the engine put out and from
what the converter did.

## Main definitions

* `SymbolsWritten` — the ways symbols are written.
* `SymbolsProduced` — the symbols that an emission produces.
* `Converter.WritesOnlySymbols`, `Converter.Leaves` — a converter that touches nothing but the
  portable symbols, and a run of a converter that puts them there.
* `BuildOptions.SymbolsOverBinary` — symbols that are written to the path of the binary.

## Main results

* `emit_eq_ok` — an emission, taken apart.
* `SymbolsWritten.shows_binary` — symbols leave the binary alone.
* `SymbolsWritten.shows_symbols` — the symbols that are kept are those beside the binary.
* `SymbolsWritten.of_kept`, `SymbolsWritten.of_shown` — kept symbols, and symbols that are there
  when none are kept, were produced by the emission or stood there before.
* `SymbolsWritten.not_shows` — after a conversion that failed, no symbols are there.
-/

namespace IncrementalBuild

variable {σ ρ φ υ : Type} {h h' h'' : Host} {p q : Path} {places : List Location}
  {contents : Bytes}

/-! ### Converters -/

namespace Converter

/-- A converter that touches the portable symbols of the binary and nothing else. -/
structure WritesOnlySymbols (c : Converter) : Prop where
  plansNothing : c.PlansNothing
  spares : ∀ (binary : Path) (h : Host), h.Calm →
    h.files.Spares [h.files.place (portableSymbolPath binary)] (c binary h).2.files

/-- A run of a converter puts portable symbols in their place, where they did not stand before. -/
def Leaves (c : Converter) (binary : Path) (h : Host) (symbols : Bytes) : Prop :=
  ¬ h.Holds (portableSymbolPath binary) symbols ∧
    (c binary h).2.Holds (portableSymbolPath binary) symbols

/-- A converter that copies symbols touches those that it writes. -/
theorem writesOnlySymbols_copying : copying.WritesOnlySymbols := by
  refine ⟨plansNothing_copying, fun binary h hc => ?_⟩
  have hlater := Access.precedes_look (fun fs => fs.read (nativeSymbolPath binary)) h
  have hfiles := Access.files_look (fun fs => fs.read (nativeSymbolPath binary)) hc
  rw [copying, Access.read]
  split
  · next hlook =>
    rw [hlook] at hfiles
    rw [hfiles]
    exact .refl _ h.files
  · next symbols h₁ hlook =>
    rw [hlook] at hlater hfiles
    have hwrite := (Access.write_touches (hlater.calm hc) (portableSymbolPath binary)
      (Bytes.ofString "CONVERTED:" ++ symbols)).files
    rw [hfiles] at hwrite
    split <;>
    · next hwritten =>
      rw [hwritten] at hwrite
      exact hwrite

/-- A converter that only fails touches nothing. -/
theorem writesOnlySymbols_missing (reason : String) : (missing reason).WritesOnlySymbols :=
  ⟨plansNothing_missing reason, fun _ h _ => .refl _ h.files⟩

/-- A converter that only returns a code touches nothing. -/
theorem writesOnlySymbols_exiting (code : Int) : (exiting code).WritesOnlySymbols :=
  ⟨plansNothing_exiting code, fun _ h _ => .refl _ h.files⟩

end Converter

/-- After the converter ran, only the compiler's own symbols are touched. -/
theorem convertSymbols_touches (c : Converter) (binary : Path) (hc : (c binary h).2.Calm) :
    (c binary h).2.Touches [(c binary h).2.files.place (nativeSymbolPath binary)]
      (convertSymbols c binary h).2 := by
  rw [convertSymbols]
  generalize c binary h = out at hc ⊢
  obtain ⟨e | code, h'⟩ := out
  · exact .refl h' _
  · have hremoved := removeIfPresent_touches hc (nativeSymbolPath binary)
    have hlook : Host.Touches [h'.files.place (nativeSymbolPath binary)]
        (removeIfPresent (nativeSymbolPath binary) h')
        (Access.read (portableSymbolPath binary)
          (removeIfPresent (nativeSymbolPath binary) h')).2 :=
      .of_files_eq (Access.precedes_look _ _) (Access.files_look _ (hremoved.later.calm hc))
    dsimp only
    split <;>
    · next hread =>
      rw [hread] at hlook
      exact hremoved.trans hlook

/-- A host that is calm after the converter ran is calm after the conversion. -/
theorem calm_convertSymbols {c : Converter} {binary : Path} (hc : (c binary h).2.Calm) :
    (convertSymbols c binary h).2.Calm :=
  (convertSymbols_touches c binary hc).later.calm hc

/-- Symbols that were converted are those at the portable path, when the converter has ended with a
code. -/
theorem convertSymbols_eq_ok {c : Converter} {binary : Path} {symbols : Bytes}
    (hc : (c binary h).2.Calm) (hconvert : convertSymbols c binary h = (.ok symbols, h')) :
    (∃ code, (c binary h).1 = .ok code) ∧ h'.Shows (portableSymbolPath binary) symbols := by
  rw [convertSymbols] at hconvert
  generalize c binary h = out at hc hconvert ⊢
  obtain ⟨e | code, h₁⟩ := out
  · exact absurd hconvert (by simp)
  · have hcalm := (removeIfPresent_touches hc (nativeSymbolPath binary)).later.calm hc
    dsimp only at hconvert
    split at hconvert
    · next hread =>
      obtain ⟨hvalue, rfl⟩ := Prod.mk.inj hconvert
      have hfiles := Access.files_look (fun fs => fs.read (portableSymbolPath binary)) hcalm
      have hshown := Access.shown_of_look hcalm hread
      rw [show Access.look (fun fs => fs.read (portableSymbolPath binary)) _ = _ from hread]
        at hfiles
      refine ⟨⟨code, rfl⟩, ?_⟩
      rw [Host.Shows, Files.contentsOf?, hfiles, hshown, Except.ok.inj hvalue]
      rfl
    · exact absurd hconvert (by simp)

/-- Converting symbols leaves the binary as it is if the converter does. -/
theorem convertSymbols_shows {c : Converter} {binary : Path} (honly : c.WritesOnlySymbols)
    (hc : h.Calm) (hname : binary.HasName) (hclear : binary.ClearOf (nativeSymbolPath binary))
    (hshows : h.Shows binary contents) : (convertSymbols c binary h).2.Shows binary contents := by
  have hrun : h.Touches [h.files.place (portableSymbolPath binary)] (c binary h).2 :=
    ⟨honly.plansNothing binary h, honly.spares binary h hc⟩
  have hconverted := convertSymbols_touches c binary (hrun.later.calm hc)
  exact hconverted.shows (Files.place_not_mem_singleton hclear)
    (hrun.shows (Files.place_not_mem_singleton hname.clearOf_portable) hshows)

/-- Portable symbols that are there after a conversion are those that the converter left, or those
that stood there before. -/
theorem leaves_of_convertSymbols {c : Converter} {binary : Path} (hplans : c.PlansNothing)
    (hc : h.Calm) (hclear : (portableSymbolPath binary).ClearOf (nativeSymbolPath binary))
    (hshows : (convertSymbols c binary h).2.Shows (portableSymbolPath binary) contents) :
    c.Leaves binary h contents ∨ h.Holds (portableSymbolPath binary) contents := by
  have hconverted := convertSymbols_touches c binary ((hplans binary h).calm hc)
  by_cases hbefore : h.Holds (portableSymbolPath binary) contents
  · exact .inr hbefore
  · exact .inl ⟨hbefore,
      (hconverted.holds_iff (Files.place_not_mem_singleton hclear)).mp hshows.holds⟩

/-! ### Ways to write symbols -/

/-- Symbols in the compiler's own format that are written to the path of the binary. -/
def BuildOptions.SymbolsOverBinary (o : BuildOptions) : Prop :=
  o.debugSymbols.emitFormat? = some .native ∧ nativeSymbolPath o.outputPath = o.outputPath

/-- The ways the symbols of an emission are written: the host before, the symbols that are kept if
the build succeeds, and the host afterwards. -/
inductive SymbolsWritten (c : Converter) (o : BuildOptions) (emitted : Option Bytes) (h : Host) :
    Option Bytes → Host → Prop
  /-- None were put out, or none were asked for. -/
  | unwritten (absent : emitted = none ∨ o.debugSymbols = .none) :
      SymbolsWritten c o emitted h emitted h
  /-- The compiler's own symbols are published. -/
  | native {bytes : Bytes} {h' : Host} (mode : o.debugSymbols = .native)
      (present : emitted = some bytes)
      (written : publish (nativeSymbolPath o.outputPath) bytes h = (.ok (), h')) :
      SymbolsWritten c o emitted h (some bytes) h'
  /-- Portable symbols are published. -/
  | portable {bytes : Bytes} {h' : Host} (mode : o.debugSymbols = .portable)
      (present : emitted = some bytes)
      (written : publish (portableSymbolPath o.outputPath) bytes h = (.ok (), h')) :
      SymbolsWritten c o emitted h (some bytes) h'
  /-- The compiler's own symbols are published, and converted. -/
  | converted {bytes symbols : Bytes} {h₁ h₂ : Host} (mode : o.debugSymbols = .converted)
      (present : emitted = some bytes)
      (written : publish (nativeSymbolPath o.outputPath) bytes h = (.ok (), h₁))
      (taken : convertSymbols c o.outputPath h₁ = (.ok symbols, h₂)) :
      SymbolsWritten c o emitted h (some symbols) h₂
  /-- The compiler's own symbols are published, but their conversion fails. -/
  | unconverted {bytes : Bytes} {e : BuildError} {h₁ h₂ : Host} (mode : o.debugSymbols = .converted)
      (present : emitted = some bytes)
      (written : publish (nativeSymbolPath o.outputPath) bytes h = (.ok (), h₁))
      (failed : convertSymbols c o.outputPath h₁ = (.error e, h₂)) :
      SymbolsWritten c o emitted h none (removeIfPresent (portableSymbolPath o.outputPath) h₂)

/-- The symbols that an emission produces: those that the engine put out, or those that a run of the
converter leaves in place of them. -/
inductive SymbolsProduced (c : Converter) (o : BuildOptions) (emitted : Option Bytes) (h : Host) :
    Bytes → Prop
  | direct {bytes : Bytes} (mode : o.debugSymbols ≠ .converted) (present : emitted = some bytes) :
      SymbolsProduced c o emitted h bytes
  | converted {bytes symbols : Bytes} {h₁ : Host} (mode : o.debugSymbols = .converted)
      (present : emitted = some bytes)
      (written : publish (nativeSymbolPath o.outputPath) bytes h = (.ok (), h₁))
      (left : c.Leaves o.outputPath h₁ symbols) : SymbolsProduced c o emitted h symbols

namespace SymbolsWritten

variable {c : Converter} {o : BuildOptions} {emitted symbols : Option Bytes} {b : Bytes}

/-- **The binary.** Writing symbols leaves the binary as it is, unless they have its path and if the
converter touches nothing else. -/
theorem shows_binary (hw : SymbolsWritten c o emitted h symbols h') (hc : h.Calm)
    (honly : c.WritesOnlySymbols) (hname : o.outputPath.HasName) (hover : ¬ o.SymbolsOverBinary)
    (hshows : h.Shows o.outputPath b) : h'.Shows o.outputPath b := by
  have hne (hformat : o.debugSymbols.emitFormat? = some .native) :
      nativeSymbolPath o.outputPath ≠ o.outputPath := fun heq => hover ⟨hformat, heq⟩
  cases hw with
  | unwritten => exact hshows
  | native mode present written =>
      obtain ⟨htouches, -, hnative⟩ := publish_eq_ok hc written
      have hclear := hname.clearOf_native hnative (hne (by rw [mode]; rfl))
      exact htouches.shows (Files.place_not_mem hclear) hshows
  | portable mode present written =>
      obtain ⟨htouches, -, -⟩ := publish_eq_ok hc written
      exact htouches.shows (Files.place_not_mem hname.clearOf_portable) hshows
  | converted mode present written taken =>
      obtain ⟨htouches, -, hnative⟩ := publish_eq_ok hc written
      have hclear := hname.clearOf_native hnative (hne (by rw [mode]; rfl))
      have hconverted := convertSymbols_shows honly (htouches.later.calm hc) hname hclear
        (htouches.shows (Files.place_not_mem hclear) hshows)
      rw [taken] at hconverted
      exact hconverted
  | unconverted mode present written failed =>
      obtain ⟨htouches, -, hnative⟩ := publish_eq_ok hc written
      have hclear := hname.clearOf_native hnative (hne (by rw [mode]; rfl))
      have hc₁ := htouches.later.calm hc
      have hconverted := convertSymbols_shows honly hc₁ hname hclear
        (htouches.shows (Files.place_not_mem hclear) hshows)
      have hcalm := calm_convertSymbols ((honly.plansNothing o.outputPath _).calm hc₁)
      rw [failed] at hconverted hcalm
      exact (removeIfPresent_touches hcalm _).shows
        (Files.place_not_mem_singleton hname.clearOf_portable) hconverted

/-- Symbols that are not to be converted are kept as they were put out. -/
theorem eq_emitted (hw : SymbolsWritten c o emitted h symbols h')
    (hmode : o.debugSymbols ≠ .converted) : symbols = emitted := by
  cases hw with
  | unwritten => rfl
  | native mode present => exact present.symm
  | portable mode present => exact present.symm
  | converted mode => exact absurd mode hmode
  | unconverted mode => exact absurd mode hmode

/-- Where no symbols were put out none are written, and none are kept. -/
theorem of_eq_none (hw : SymbolsWritten c o emitted h symbols h') (hnone : emitted = none) :
    symbols = none ∧ h' = h := by
  cases hw with
  | unwritten => exact ⟨hnone, rfl⟩
  | native _ present => exact absurd (hnone.symm.trans present) (by simp)
  | portable _ present => exact absurd (hnone.symm.trans present) (by simp)
  | converted _ present => exact absurd (hnone.symm.trans present) (by simp)
  | unconverted _ present => exact absurd (hnone.symm.trans present) (by simp)

/-- **The symbols.** Symbols that are kept stand beside the binary. -/
theorem shows_symbols (hw : SymbolsWritten c o emitted h (some b) h') (hc : h.Calm)
    (hplans : c.PlansNothing) (hp : o.symbolPath? = some p) : h'.Shows p b := by
  rw [BuildOptions.symbolPath?] at hp
  generalize hkept : some b = kept at hw
  cases hw with
  | unwritten absent =>
      rcases absent with rfl | mode
      · exact absurd hkept (by simp)
      · rw [mode] at hp
        exact absurd hp (by simp [SymbolMode.symbolPath?])
  | native mode present written =>
      rw [mode] at hp
      obtain rfl := Option.some.inj hp
      obtain rfl := Option.some.inj hkept
      exact (publish_eq_ok hc written).2.1
  | portable mode present written =>
      rw [mode] at hp
      obtain rfl := Option.some.inj hp
      obtain rfl := Option.some.inj hkept
      exact (publish_eq_ok hc written).2.1
  | converted mode present written taken =>
      rw [mode] at hp
      obtain rfl := Option.some.inj hp
      obtain rfl := Option.some.inj hkept
      have hc₁ := (publish_eq_ok hc written).1.later.calm hc
      exact (convertSymbols_eq_ok ((hplans _ _).calm hc₁) taken).2
  | unconverted => exact absurd hkept (by simp)

/-- Portable symbols that are there after a conversion were produced by it, or stood there before
the compiler's own were published. -/
theorem of_converted_shown {bytes : Bytes} {h₁ : Host} (mode : o.debugSymbols = .converted)
    (present : emitted = some bytes)
    (written : publish (nativeSymbolPath o.outputPath) bytes h = (.ok (), h₁)) (hc : h.Calm)
    (hplans : c.PlansNothing) (hname : o.outputPath.HasName)
    (hshows : (convertSymbols c o.outputPath h₁).2.Shows (portableSymbolPath o.outputPath) b) :
    SymbolsProduced c o emitted h b ∨ h.Holds (portableSymbolPath o.outputPath) b := by
  obtain ⟨htouches, -, hnative⟩ := publish_eq_ok hc written
  have hclear := hname.portable_clearOf_native hnative
  rcases leaves_of_convertSymbols hplans (htouches.later.calm hc) hclear hshows with hleft | hholds
  · exact .inl (.converted mode present written hleft)
  · exact .inr ((htouches.holds_iff (Files.place_not_mem hclear)).mp hholds)

/-- **Kept symbols** were produced by the emission; only a converter may take for its own what stood
there before. -/
theorem of_kept (hw : SymbolsWritten c o emitted h (some b) h') (hc : h.Calm)
    (hplans : c.PlansNothing) (hname : o.outputPath.HasName) :
    SymbolsProduced c o emitted h b ∨
      o.debugSymbols = .converted ∧ h.Holds (portableSymbolPath o.outputPath) b := by
  generalize hkept : some b = kept at hw
  cases hw with
  | unwritten absent =>
      rcases absent with rfl | mode
      · exact absurd hkept (by simp)
      · exact .inl (.direct (by simp [mode]) hkept.symm)
  | native mode present written =>
      obtain rfl := Option.some.inj hkept
      exact .inl (.direct (by simp [mode]) present)
  | portable mode present written =>
      obtain rfl := Option.some.inj hkept
      exact .inl (.direct (by simp [mode]) present)
  | converted mode present written taken =>
      obtain rfl := Option.some.inj hkept
      have hc₁ := (publish_eq_ok hc written).1.later.calm hc
      have hshows := (convertSymbols_eq_ok ((hplans _ _).calm hc₁) taken).2
      exact (of_converted_shown mode present written hc hplans hname
        (by rw [taken]; exact hshows)).imp_right fun hholds => ⟨mode, hholds⟩
  | unconverted => exact absurd hkept (by simp)

/-- **Symbols beside the binary** when none are kept were produced by the emission, or stood there
before. -/
theorem of_shown (hw : SymbolsWritten c o emitted h none h') (hc : h.Calm) (hplans : c.PlansNothing)
    (hname : o.outputPath.HasName) (hp : o.symbolPath? = some p) (hshows : h'.Shows p b) :
    SymbolsProduced c o emitted h b ∨ h.Holds p b := by
  generalize hkept : (none : Option Bytes) = kept at hw
  cases hw with
  | unwritten => exact .inr hshows.holds
  | native => exact absurd hkept (by simp)
  | portable => exact absurd hkept (by simp)
  | converted => exact absurd hkept (by simp)
  | unconverted mode present written failed =>
      rw [BuildOptions.symbolPath?, mode] at hp
      obtain rfl := Option.some.inj hp
      have hc₁ := (publish_eq_ok hc written).1.later.calm hc
      have hcalm := calm_convertSymbols ((hplans o.outputPath _).calm hc₁)
      rw [failed] at hcalm
      have hbefore := shows_of_removeIfPresent hcalm hshows
      exact of_converted_shown mode present written hc hplans hname (by rw [failed]; exact hbefore)

/-- **A failed conversion** leaves no symbols beside the binary, unless an access fails for a reason
of its own. -/
theorem not_shows (hw : SymbolsWritten c o emitted h none h') (hc : h.Calm) (hsteady : h.Steady)
    (hplans : c.PlansNothing) (hname : o.outputPath.HasName) (hemitted : emitted ≠ none)
    (hp : o.symbolPath? = some p) : ¬ h'.Shows p b := by
  generalize hkept : (none : Option Bytes) = kept at hw
  cases hw with
  | unwritten => exact absurd hkept.symm hemitted
  | native => exact absurd hkept (by simp)
  | portable => exact absurd hkept (by simp)
  | converted => exact absurd hkept (by simp)
  | unconverted mode present written failed =>
      rw [BuildOptions.symbolPath?, mode] at hp
      obtain rfl := Option.some.inj hp
      have hlater := (publish_eq_ok hc written).1.later.trans (hplans o.outputPath _)
      have hconverted := convertSymbols_touches c o.outputPath (hlater.calm hc)
      rw [failed] at hconverted
      have hrest := hlater.trans hconverted.later
      exact not_shows_removeIfPresent (hrest.calm hc) (hrest.steady hsteady) hname.portable

end SymbolsWritten

/-- Symbols are written if they were put out and asked for, and then they are published. -/
theorem writeSymbols_eq_ok {o : BuildOptions} {emitted : Option Bytes} {written : Bool}
    (hwrite : writeSymbols o emitted h = (.ok written, h')) :
    (written = false ∧ h' = h ∧ (emitted = none ∨ o.debugSymbols.emitFormat? = none)) ∨
      ∃ bytes, written = true ∧ emitted = some bytes ∧
        ((o.debugSymbols.emitFormat? = some .native ∧
            publish (nativeSymbolPath o.outputPath) bytes h = (.ok (), h')) ∨
          (o.debugSymbols.emitFormat? = some .portable ∧
            publish (portableSymbolPath o.outputPath) bytes h = (.ok (), h'))) := by
  rw [writeSymbols.eq_def] at hwrite
  dsimp only at hwrite
  -- Without a format or without symbols nothing is written.
  rcases hformat : o.debugSymbols.emitFormat? with _ | _ | _ <;> rcases emitted with _ | bytes <;>
    rw [hformat] at hwrite <;> dsimp only at hwrite
  case none.none | none.some | some.native.none | some.portable.none =>
    obtain ⟨hvalue, rfl⟩ := Prod.mk.inj hwrite
    exact .inl ⟨(Except.ok.inj hvalue).symm, rfl, by simp⟩
  case some.native.some =>
    split at hwrite
    · next hpublish =>
      obtain ⟨hvalue, rfl⟩ := Prod.mk.inj hwrite
      exact .inr ⟨bytes, (Except.ok.inj hvalue).symm, rfl, .inl ⟨rfl, hpublish⟩⟩
    · exact absurd hwrite (by simp)
  case some.portable.some =>
    split at hwrite
    · next hpublish =>
      obtain ⟨hvalue, rfl⟩ := Prod.mk.inj hwrite
      exact .inr ⟨bytes, (Except.ok.inj hvalue).symm, rfl, .inr ⟨rfl, hpublish⟩⟩
    · exact absurd hwrite (by simp)

/-- Symbols that are written and not to be converted are kept as they were put out. -/
theorem SymbolsWritten.of_direct {o : BuildOptions} {emitted : Option Bytes} {written : Bool}
    (c : Converter) (hwrite : writeSymbols o emitted h = (.ok written, h'))
    (hdirect : ¬ (o.debugSymbols = .converted ∧ written = true)) :
    SymbolsWritten c o emitted h emitted h' := by
  rcases writeSymbols_eq_ok hwrite with ⟨-, rfl, habsent⟩ |
    ⟨bytes, rfl, rfl, ⟨hformat, hpublish⟩ | ⟨hformat, hpublish⟩⟩
  · refine .unwritten (habsent.imp_right fun hformat => ?_)
    cases hmode : o.debugSymbols <;> simp_all [SymbolMode.emitFormat?]
  · refine .native ?_ rfl hpublish
    cases hmode : o.debugSymbols <;> simp_all [SymbolMode.emitFormat?]
  · refine .portable ?_ rfl hpublish
    cases hmode : o.debugSymbols <;> simp_all [SymbolMode.emitFormat?]

/-- Symbols that are to be converted are kept as the converter left them. -/
theorem SymbolsWritten.of_converted {o : BuildOptions} {emitted : Option Bytes} (c : Converter)
    (result : BuildResult) (hwrite : writeSymbols o emitted h = (.ok true, h'))
    (hmode : o.debugSymbols = .converted) :
    SymbolsWritten c o emitted h (convertWritten c o result h').1.2
      (convertWritten c o result h').2 := by
  rcases writeSymbols_eq_ok hwrite with ⟨hnever, -⟩ |
    ⟨bytes, -, rfl, ⟨-, hpublish⟩ | ⟨hformat, -⟩⟩
  · exact absurd hnever (by simp)
  · rw [convertWritten]
    split
    · next hconvert => exact .converted hmode rfl hpublish hconvert
    · next hconvert => exact .unconverted hmode rfl hpublish hconvert
  · rw [hmode] at hformat
    exact absurd hformat (by simp [SymbolMode.emitFormat?])

/-- **Emission, taken apart.** The engine puts something out, the binary is published, and then the
symbols are written. -/
theorem emit_eq_ok {t : Toolchain σ ρ φ υ} {unit : υ} {o : BuildOptions} {w w' : World σ}
    {e : Emitted} (hemit : emit t unit o w = (.ok e, w')) :
    ∃ output w₀ h₁ symbols,
      t.engine.emit unit o.debugSymbols.emitFormat? w = (.ok output, w₀) ∧
      publish o.outputPath output.binary w₀.host = (.ok (), h₁) ∧
      SymbolsWritten t.converter o output.symbols h₁ symbols w'.host ∧
      e.kept = if e.result.succeeded then some ⟨output.binary, symbols, o.debugSymbols⟩
        else none := by
  obtain ⟨output, w₀, houtput, hemit⟩ := Task.bind_eq_ok hemit
  obtain ⟨⟨⟩, w₁, hpublish, hemit⟩ := Task.bind_eq_ok hemit
  obtain ⟨written, w₂, hwrite, hemit⟩ := Task.bind_eq_ok hemit
  obtain ⟨hpublish, -⟩ := Task.onHost_eq_ok hpublish
  obtain ⟨hwrite, -⟩ := Task.onHost_eq_ok hwrite
  dsimp only at hemit
  split at hemit
  · next hconvert =>
    obtain ⟨⟨result, symbols⟩, w₃, hconverted, hemit⟩ := Task.bind_eq_ok hemit
    obtain ⟨rfl, rfl⟩ := Task.pure_eq_ok hemit
    obtain ⟨hconverted, -⟩ := Task.onHost_eq_ok hconverted
    obtain ⟨hresult, hhost⟩ := Prod.mk.inj hconverted
    have hwritten := SymbolsWritten.of_converted t.converter
      (.ofDiagnostics output.succeeded output.diagnostics) (hconvert.2 ▸ hwrite) hconvert.1
    rw [Except.ok.inj hresult, hhost] at hwritten
    exact ⟨output, w₀, w₁.host, symbols, houtput, hpublish, hwritten, rfl⟩
  · next hdirect =>
    obtain ⟨⟨result, symbols⟩, w₃, hdone, hemit⟩ := Task.bind_eq_ok hemit
    obtain ⟨rfl, rfl⟩ := Task.pure_eq_ok hemit
    obtain ⟨heq, rfl⟩ := Task.pure_eq_ok hdone
    obtain ⟨rfl, rfl⟩ := Prod.mk.inj heq
    exact ⟨output, w₀, w₁.host, output.symbols, houtput, hpublish,
      .of_direct t.converter hwrite hdirect, rfl⟩

end IncrementalBuild
