import Mathlib.Logic.Relation
import IncrementalBuild.Options
import IncrementalBuild.Proofs.Path.Join
import IncrementalBuild.Publish
/-!
# The last name of a path

The text of a path is a directory and a last name, cut at the last separator. Text that is written
after it, and another extension, change the last name and leave the directory, so that the files
beside an output are told apart by their names.

## Main definitions

* `Path.textIn`, `Path.Named` — a name in a directory, and a path with its directory and name.
* `Path.IsName` — a name that is neither missing nor one of the dots.
* `Path.HasName` — a path that ends in a name.
* `Path.EndsIn` — a path that ends in the name of its directory and its own.
* `Path.Within` — a directory that is a path itself, or above it.
* `Path.nativeName`, `Path.temporarySuffix` — the names that the files beside a path get.
* `Path.ClearOf` — a path that names neither the file of another one nor its temporary file.

## Main results

* `Path.Named.native`, `Path.Named.portable`, `Path.Named.temporary` — the names of the files
  beside a path.
* `Path.HasName.clearOf_native`, `Path.HasName.native_clearOf`, `Path.HasName.clearOf_portable`,
  `Path.HasName.portable_clearOf`, `Path.HasName.portable_clearOf_native` — the symbols of a binary
  are clear of it and of each other, unless the binary has the path of its symbols in the compiler's
  own format.
-/

namespace IncrementalBuild.Path

/-! ### A directory and a name -/

/-- The text of a name in a directory, if there is one. -/
def textIn : Option (List Char) → List Char → List Char
  | none, name => name
  | some dir, name => dir ++ '/' :: name

/-- A path with the text before its last separator, if it has one, and the text after it. -/
structure Named (p : Path) (dir : Option (List Char)) (name : List Char) : Prop where
  text : p.text.toList = textIn dir name
  separator : '/' ∉ name

/-- A text that names something in its directory. -/
structure IsName (name : List Char) : Prop where
  ne_nil : name ≠ []
  ne_here : name ≠ ['.']
  ne_up : name ≠ ['.', '.']

/-- A path that ends in two names: that of its directory, and its own. -/
structure EndsIn (p : Path) (dir : Option (List Char)) (folder name : List Char) : Prop where
  named : p.Named (some (textIn dir folder)) name
  isName : IsName name
  isFolder : IsName folder
  separator : '/' ∉ folder

/-- A directory that is a path itself, or above it. -/
def Within (p dir : Path) : Prop :=
  Relation.ReflTransGen (fun q above => q.parent? = some above) p dir

variable {p q : Path} {dir : Option (List Char)} {name other : List Char}

/-- A text has the bytes of its parts. -/
theorem byteLength_append (a b : List Char) :
    byteLength (a ++ b) = byteLength a + byteLength b := by
  induction a with
  | nil => simp [byteLength]
  | cons c a ih => rw [List.cons_append, byteLength, byteLength, ih, Nat.add_assoc]

/-- A character has at most four bytes. -/
theorem byteLength_le (cs : List Char) : byteLength cs ≤ 4 * cs.length := by
  induction cs with
  | nil => simp [byteLength]
  | cons c cs ih =>
      have hc := c.utf8Size_le_four
      rw [byteLength, List.length_cons]
      omega

/-- A text without separators is one segment. -/
theorem segments_of_not_mem (h : '/' ∉ name) : segments name = [name] := by
  induction name with
  | nil => rfl
  | cons c rest ih =>
      obtain ⟨hc, hrest⟩ := not_or.mp (mt List.mem_cons.mpr h)
      rw [segments] at ih ⊢
      rw [Blank.pieces, ih hrest]
      simp [Ne.symm hc]

/-- Every text is a name in a directory. -/
theorem exists_textIn (cs : List Char) : ∃ dir name, cs = textIn dir name ∧ '/' ∉ name := by
  induction cs with
  | nil => exact ⟨none, [], rfl, by simp⟩
  | cons c rest ih =>
      obtain ⟨dir, name, rfl, hname⟩ := ih
      cases dir with
      | some dir => exact ⟨some (c :: dir), name, rfl, hname⟩
      | none =>
          by_cases hc : c = '/'
          · exact ⟨some [], name, by rw [hc]; rfl, hname⟩
          · exact ⟨none, c :: name, rfl, by simp [Ne.symm hc, hname]⟩

/-- Every path has a directory and a name. -/
theorem exists_named (p : Path) : ∃ dir name, Named p dir name := by
  obtain ⟨dir, name, h, hname⟩ := exists_textIn p.text.toList
  exact ⟨dir, name, h, hname⟩

/-- The segments of a name in a directory end with the name. -/
theorem segments_textIn (dir : Option (List Char)) (h : '/' ∉ name) :
    segments (textIn dir name) = (dir.elim [] segments) ++ [name] := by
  cases dir with
  | none => exact segments_of_not_mem h
  | some dir =>
      rw [textIn, segments, Blank.pieces_append_cons (by rfl)]
      exact congrArg _ (segments_of_not_mem h)

/-- Segments with separators between them are the text that they were cut from. -/
theorem joinSegments_segments (cs : List Char) : joinSegments (segments cs) = cs := by
  rw [joinSegments, segments]
  induction cs with
  | nil => rfl
  | cons c rest ih =>
      obtain ⟨first, others, hparts⟩ :=
        List.exists_cons_of_ne_nil (Blank.pieces_ne_nil (· == '/') rest)
      rw [hparts] at ih
      rw [Blank.pieces, hparts]
      by_cases hc : c = '/'
      · rw [hc, if_pos (by rfl), List.intercalate_cons_cons, ih]
        rfl
      · rw [if_neg (by simpa using hc)]
        dsimp only
        cases others with
        | nil =>
            rw [List.intercalate_singleton] at ih ⊢
            rw [ih]
        | cons second others =>
            rw [List.intercalate_cons_cons] at ih ⊢
            rw [← ih]
            rfl

/-- One more segment comes after a separator. -/
theorem joinSegments_concat {parts : List (List Char)} (h : parts ≠ []) (segment : List Char) :
    joinSegments (parts ++ [segment]) = joinSegments parts ++ '/' :: segment := by
  rw [joinSegments, joinSegments]
  induction parts with
  | nil => exact absurd rfl h
  | cons first rest ih =>
      cases rest with
      | nil => simp [List.intercalate_cons_cons]
      | cons second rest =>
          rw [List.cons_append, List.cons_append, List.intercalate_cons_cons,
            List.intercalate_cons_cons, ← List.cons_append, ih (by simp)]
          simp

/-- The segments of a directory with a name after them are the name's text. -/
theorem joinSegments_dir (dir : Option (List Char)) (name : List Char) :
    joinSegments (dir.elim [] segments ++ [name]) = textIn dir name := by
  cases dir with
  | none => exact List.intercalate_singleton
  | some dir =>
      have hne : segments dir ≠ [] := Blank.pieces_ne_nil _ _
      rw [Option.elim_some, joinSegments_concat hne, joinSegments_segments]
      rfl

/-- A path has one last name. -/
theorem Named.unique {dir' : Option (List Char)} (h : Named p dir name) (h' : Named p dir' other) :
    name = other := by
  have hsegments := congrArg segments (h.text.symm.trans h'.text)
  rw [segments_textIn dir h.separator, segments_textIn dir' h'.separator] at hsegments
  exact List.head_eq_of_cons_eq (List.append_inj_right' hsegments rfl)

/-- A path that ends in a name. -/
def HasName (p : Path) : Prop := ∃ dir name, Named p dir name ∧ IsName name

/-- A name is a component. -/
theorem IsName.ofSegment? (h : IsName name) : Component.ofSegment? name = some (.name name) := by
  obtain ⟨hnil, hhere, hup⟩ := h
  unfold Component.ofSegment?
  split <;> simp_all

/-- Two paths with one directory and one name have one text. -/
theorem Named.eq (hp : Named p dir name) (hq : Named q dir name) : p = q := by
  have htext : p.text = q.text := String.toList_inj.mp (hp.text.trans hq.text.symm)
  obtain ⟨text⟩ := p
  exact congrArg Path.mk htext

/-! ### The files beside a path -/

/-- Text that is written after a path is written after its name. -/
theorem Named.appendText (h : Named p dir name) {suffix : String} (hs : '/' ∉ suffix.toList) :
    Named (p.appendText suffix) dir (name ++ suffix.toList) := by
  refine ⟨?_, by simp [h.separator, hs]⟩
  rw [Path.appendText, String.toList_append, h.text]
  cases dir <;> simp [textIn]

/-- A text that ends in three characters or more is neither missing nor one of the dots. -/
theorem isName_append (name : List Char) {suffix : List Char} (h : 2 < suffix.length) :
    IsName (name ++ suffix) := by
  refine ⟨?_, ?_, ?_⟩ <;>
  · intro heq
    have hlength := congrArg List.length heq
    simp only [List.length_append, List.length_cons, List.length_nil] at hlength
    omega

/-- What stands before the last dot of a name, if something does. -/
theorem splitName_append {stem extension : List Char} (hs : stem ≠ []) (he : '.' ∉ extension) :
    splitName (stem ++ '.' :: extension) = (stem, some extension) := by
  have hall : ∀ c ∈ extension.reverse, (c != '.') = true := by
    intro c hc
    rw [bne_iff_ne]
    rintro rfl
    exact he (List.mem_reverse.mp hc)
  have htake : ((stem ++ '.' :: extension).reverse.takeWhile (· != '.')).reverse = extension := by
    rw [List.reverse_append, List.reverse_cons, List.append_assoc, List.singleton_append,
      List.takeWhile_append_of_pos hall, List.takeWhile_cons_of_neg (by simp), List.append_nil,
      List.reverse_reverse]
  have hlength : (stem ++ '.' :: extension).length - extension.length - 1 = stem.length := by
    rw [List.length_append, List.length_cons]
    omega
  rw [splitName, htake, hlength, List.take_left, if_neg hs]

/-- The stem of a name is a part of it. -/
theorem mem_of_mem_stem {c : Char} (h : c ∈ (splitName name).1) : c ∈ name := by
  rw [splitName] at h
  split at h
  · exact h
  · exact List.mem_of_mem_take h

/-- The name that a name gets with the extension of symbols in the compiler's own format. -/
def nativeName (name : List Char) : List Char :=
  if (splitName name).1 = ['.'] then ['.', '.'] else (splitName name).1 ++ ".pdb".toList

/-- What the name of a temporary file ends with. -/
def temporarySuffix : List Char := ".kiln-tmp".toList

/-- The last segment of a path is not left out. -/
theorem trimEnd_concat (parts : List (List Char)) (h : IsName name) :
    trimEnd (parts ++ [name]) = parts ++ [name] := by
  have htrivial : isTrivial name = false := by simp [isTrivial, h.ne_nil, h.ne_here]
  cases parts with
  | nil => rfl
  | cons first rest =>
      rw [List.cons_append, trimEnd, List.reverse_append, List.reverse_singleton,
        List.singleton_append, List.dropWhile_cons_of_neg (by simp [htrivial])]
      simp

/-- The file name of a path is its last name. -/
theorem fileNameOf?_textIn (dir : Option (List Char)) (h : IsName name) (hsep : '/' ∉ name) :
    fileNameOf? (textIn dir name) = some name := by
  rw [fileNameOf?, componentsOf_eq, stepsOf, segments_textIn dir hsep, List.filterMap_append,
    ← List.append_assoc]
  simp [h.ofSegment?, Component.name?]

/-- A text that ends in a name is not empty. -/
theorem textIn_ne_nil (dir : Option (List Char)) (h : IsName name) : textIn dir name ≠ [] := by
  cases dir with
  | none => exact h.ne_nil
  | some dir => simp [textIn]

/-- A text that ends in a name ends in no separator. -/
theorem getLast?_textIn (dir : Option (List Char)) (h : IsName name) (hsep : '/' ∉ name) :
    (textIn dir name).getLast? ≠ some '/' := by
  intro hlast
  have hname : name.getLast? = some '/' := by
    cases dir with
    | none => exact hlast
    | some dir =>
        rw [textIn, List.getLast?_append_cons, List.getLast?_cons_of_ne_nil h.ne_nil] at hlast
        exact hlast
  exact hsep (List.mem_of_getLast? hname)

/-- A relative text that is read in a directory with a name comes after a separator. -/
theorem joinText_textIn (dir : Option (List Char)) (h : IsName name) (hsep : '/' ∉ name)
    (hother : '/' ∉ other) :
    joinText (textIn dir name) other = textIn (some (textIn dir name)) other := by
  have hrelative : other.head? ≠ some '/' := fun hhead => hother (List.mem_of_mem_head? hhead)
  have hkept : ¬ (textIn dir name = [] ∨ (textIn dir name).getLast? = some '/') :=
    not_or.mpr ⟨textIn_ne_nil dir h, getLast?_textIn dir h hsep⟩
  rw [joinText, if_neg hrelative, if_neg hkept]
  rfl

/-- The parent of the path is its directory. -/
theorem EndsIn.parent?_eq (h : p.EndsIn dir other name) :
    p.parent? = some ⟨String.ofList (textIn dir other)⟩ := by
  have hsegments : segments (textIn dir other) = dir.elim [] segments ++ [other] :=
    segments_textIn dir h.separator
  have hdir : trimEnd (segments (textIn dir other)) = segments (textIn dir other) := by
    rw [hsegments, trimEnd_concat _ h.isFolder]
  have hwhole : trimEnd (segments p.text.toList) = segments (textIn dir other) ++ [name] := by
    rw [h.named.text, segments_textIn _ h.named.separator]
    exact trimEnd_concat _ h.isName
  have hroot : segments (textIn dir other) ≠ [[]] := by
    intro heq
    have hmem : other ∈ segments (textIn dir other) := by
      rw [hsegments]
      exact List.mem_append_right _ List.mem_cons_self
    rw [heq] at hmem
    exact h.isFolder.ne_nil (List.mem_singleton.mp hmem)
  have hpos : 0 < (segments (textIn dir other)).length :=
    List.length_pos_of_ne_nil (Blank.pieces_ne_nil _ _)
  have hparent : parentOf? p.text.toList = some (textIn dir other) := by
    rw [parentOf?, hwhole]
    split
    · next heq => exact absurd heq (by simp)
    · next heq =>
        have hlength := congrArg List.length heq
        rw [List.length_append, List.length_singleton, List.length_singleton] at hlength
        omega
    · rw [List.dropLast_concat, hdir]
      split
      · next heq => exact absurd heq hroot
      · rw [joinSegments_segments]
  rw [parent?, hparent]
  rfl

/-- Another extension changes the name. -/
theorem Named.native (h : Named p dir name) (hname : IsName name) :
    Named (nativeSymbolPath p) dir (nativeName name) := by
  have hstem : '/' ∉ (splitName name).1 := fun hmem => h.separator (mem_of_mem_stem hmem)
  have hreplaced : '/' ∉ nativeName name := by
    rw [nativeName]
    split
    · decide
    · simpa using hstem
  refine ⟨?_, hreplaced⟩
  rw [nativeSymbolPath, withExtension, withExtensionText, h.text,
    fileNameOf?_textIn dir hname h.separator]
  dsimp only
  rw [segments_textIn dir h.separator, trimEnd_concat _ hname, List.dropLast_concat,
    joinSegments_dir, String.toList_ofList, nativeName]
  simp

/-- The name of the portable symbols of a path. -/
theorem Named.portable (h : Named p dir name) :
    Named (portableSymbolPath p) dir (name ++ ".mdb".toList) :=
  h.appendText (by decide)

/-- The temporary file beside a path has a name of its own. -/
theorem Named.temporary (h : Named p dir name) :
    Named (Publish.temporary p) dir (name ++ temporarySuffix) :=
  h.appendText (by decide)

/-! ### Names that differ -/

/-- Texts with different ends of one length differ. -/
theorem append_ne_append {a b s t : List Char} (h : s ≠ t) (hlength : s.length = t.length) :
    a ++ s ≠ b ++ t :=
  fun heq => h (List.append_inj_right' heq hlength)

/-- A text with more after it is another text. -/
theorem append_ne_self {a s : List Char} (h : s ≠ []) : a ++ s ≠ a := by
  simpa using h

/-- A temporary file has no name that portable symbols have. -/
theorem temporary_ne_portable (a name : List Char) :
    a ++ temporarySuffix ≠ name ++ ".mdb".toList := by
  have hsplit : temporarySuffix = ".kiln".toList ++ "-tmp".toList := by decide
  rw [hsplit, ← List.append_assoc]
  exact append_ne_append (by decide) (by decide)

/-- A temporary file has no name that symbols in the compiler's own format have. -/
theorem temporary_ne_native (a name : List Char) : a ++ temporarySuffix ≠ nativeName name := by
  have hsplit : temporarySuffix = ".kiln".toList ++ "-tmp".toList := by decide
  rw [nativeName]
  split
  · exact (isName_append _ (by decide)).ne_up
  · rw [hsplit, ← List.append_assoc]
    exact append_ne_append (by decide) (by decide)

/-- Symbols of the two formats have different names. -/
theorem portable_ne_native (a name : List Char) : a ++ ".mdb".toList ≠ nativeName name := by
  rw [nativeName]
  split
  · exact (isName_append _ (by decide)).ne_up
  · exact append_ne_append (by decide) (by decide)

/-- The temporary file of the symbols in the compiler's own format is not the binary. -/
theorem nativeName_temporary_ne (name : List Char) : nativeName name ++ temporarySuffix ≠ name := by
  intro heq
  have hne : nativeName name ≠ [] := by
    rw [nativeName]
    split <;> simp
  have hsplit : splitName (nativeName name ++ '.' :: "kiln-tmp".toList) =
      (nativeName name, some "kiln-tmp".toList) := splitName_append hne (by decide)
  have hstem : (splitName name).1 = nativeName name := by
    have heq' : nativeName name ++ '.' :: "kiln-tmp".toList = name := heq
    rw [heq'] at hsplit
    rw [hsplit]
  rw [nativeName] at hstem
  split at hstem
  · next hdot => exact absurd (hdot.symm.trans hstem) (by decide)
  · exact append_ne_self (by decide) hstem.symm

/-- The symbols in the compiler's own format have another name than the binary, unless their path
is the binary's. -/
theorem Named.native_ne (h : Named p dir name) (hname : IsName name)
    (hp : nativeSymbolPath p ≠ p) : nativeName name ≠ name := by
  intro heq
  have hnative := h.native hname
  rw [heq] at hnative
  exact hp (hnative.eq h)

/-! ### Paths that are clear of each other -/

/-- A path that names, in the directory of another one, neither its file nor its temporary file. -/
def ClearOf (q p : Path) : Prop :=
  ∃ dir name other, Named q dir name ∧ Named p dir other ∧ IsName other ∧ name ≠ other ∧
    name ≠ other ++ temporarySuffix

namespace HasName

/-- The path of the symbols in the compiler's own format ends in the name that they get. -/
theorem isName_native (hnative : HasName (nativeSymbolPath p)) (h : Named p dir name)
    (hname : IsName name) : IsName (nativeName name) := by
  obtain ⟨dir', other, hother, hisName⟩ := hnative
  rw [(h.native hname).unique hother]
  exact hisName

/-- The path of portable symbols ends in a name. -/
theorem portable (h : HasName p) : HasName (portableSymbolPath p) := by
  obtain ⟨dir, name, hp, -⟩ := h
  exact ⟨dir, _, hp.portable, isName_append name (by decide)⟩

/-- Portable symbols are clear of the binary. -/
theorem portable_clearOf (h : HasName p) : ClearOf (portableSymbolPath p) p := by
  obtain ⟨dir, name, hp, hname⟩ := h
  exact ⟨dir, _, _, hp.portable, hp, hname, append_ne_self (by decide),
    (temporary_ne_portable name name).symm⟩

/-- The binary is clear of portable symbols. -/
theorem clearOf_portable (h : HasName p) : ClearOf p (portableSymbolPath p) := by
  obtain ⟨dir, name, hp, -⟩ := h
  refine ⟨dir, _, _, hp, hp.portable, isName_append _ (by decide),
    (append_ne_self (by decide)).symm, ?_⟩
  rw [List.append_assoc]
  exact (append_ne_self (by decide)).symm

/-- Symbols in the compiler's own format are clear of the binary, unless they have its path. -/
theorem native_clearOf (h : HasName p) (hne : nativeSymbolPath p ≠ p) :
    ClearOf (nativeSymbolPath p) p := by
  obtain ⟨dir, name, hp, hname⟩ := h
  exact ⟨dir, _, _, hp.native hname, hp, hname, hp.native_ne hname hne,
    (temporary_ne_native name name).symm⟩

/-- The binary is clear of symbols in the compiler's own format, unless they have its path. -/
theorem clearOf_native (h : HasName p) (hnative : HasName (nativeSymbolPath p))
    (hne : nativeSymbolPath p ≠ p) : ClearOf p (nativeSymbolPath p) := by
  obtain ⟨dir, name, hp, hname⟩ := h
  exact ⟨dir, _, _, hp, hp.native hname, isName_native hnative hp hname,
    (hp.native_ne hname hne).symm, (nativeName_temporary_ne name).symm⟩

/-- Portable symbols are clear of those in the compiler's own format. -/
theorem portable_clearOf_native (h : HasName p) (hnative : HasName (nativeSymbolPath p)) :
    ClearOf (portableSymbolPath p) (nativeSymbolPath p) := by
  obtain ⟨dir, name, hp, hname⟩ := h
  exact ⟨dir, _, _, hp.portable, hp.native hname, isName_native hnative hp hname,
    portable_ne_native name name, (temporary_ne_portable (nativeName name) name).symm⟩

end HasName
end IncrementalBuild.Path
