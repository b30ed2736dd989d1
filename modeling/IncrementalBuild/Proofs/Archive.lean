import IncrementalBuild.Archive
import IncrementalBuild.Proofs.Text.Bytes
/-!
# Archives are read back

A reader undoes a layout when it finds the value again wherever the layout placed its bytes. Two
readers one after the other undo the pair of their layouts, and so the readers of whole messages
undo theirs: what `pack` wrote, `unpack` reads, as long as no position in the message is out of the
reach of a reference.

## Main definitions

* `Archive.Stands` — bytes that stand at a position of a message.
* `Archive.Reads` — a reader that undoes a layout.

## Main results

* `Archive.Reads.bind` — readers one after the other.
* `Archive.reads_text`, `Archive.reads_texts` — texts and lists of texts are read back.
* `Archive.unpack_pack` — whole messages are read back.
-/

namespace IncrementalBuild.Archive

variable {α β : Type} {body a b : Bytes} {here start n : Nat}

/-! ### Words -/

/-- Four bytes hold a number modulo 2 ^ 32. -/
theorem ofLe32_le32 (n : Nat) : ofLe32 (le32 n) = n % 4294967296 := by
  simp only [le32, List.map_cons, List.map_nil, ofLe32, UInt8.toNat_ofNat']
  omega

/-- A reference back to a target that is not too far away. -/
theorem signed_ofLe32_offset {source target : Nat} (hle : target ≤ source)
    (hnear : source ≤ longestText) :
    signed (ofLe32 (offset source target)) = (target : Int) - source := by
  rw [longestText] at hnear
  rw [offset, ofLe32_le32, signed]
  split <;> omega

/-- The length of an out-of-line text fits into a word. -/
theorem packLength_lt (h : n ≤ longestText) : packLength n < 4294967296 := by
  rw [longestText] at h
  rw [packLength]
  omega

/-- The length of an out-of-line text is found in its word. -/
theorem unpackLength_packLength (n : Nat) : unpackLength (packLength n) = n := by
  rw [unpackLength, packLength]
  omega

/-! ### Bytes at a position -/

/-- The bytes stand in a message at a position. -/
def Stands (bytes body : Bytes) (here : Nat) : Prop := bytes <+: body.drop here

namespace Stands

/-- Bytes stand at a position if their parts stand one after the other. -/
theorem append_iff :
    Stands (a ++ b) body here ↔ Stands a body here ∧ Stands b body (here + a.length) := by
  rw [Stands, Stands, Stands, ← List.drop_drop]
  constructor
  · rintro ⟨rest, hrest⟩
    rw [← hrest, List.append_assoc, List.drop_left]
    exact ⟨List.prefix_append _ _, List.prefix_append _ _⟩
  · rintro ⟨⟨rest, hrest⟩, hb⟩
    rw [← hrest, List.drop_left] at hb
    rw [← hrest]
    exact List.prefix_append_right_inj a |>.mpr hb

/-- A message stands at its own start. -/
theorem refl (body : Bytes) : Stands body body 0 := List.prefix_rfl

/-- The bytes that are cut out where some stand. -/
theorem slice_eq (h : Stands a body here) (hn : n ≤ a.length) : slice body here n = a.take n := by
  obtain ⟨rest, hrest⟩ := h
  rw [slice, ← hrest, List.take_append_of_le_length hn]

/-- The bytes that are cut out with the length of those that stand there. -/
theorem slice_length (h : Stands a body here) : slice body here a.length = a := by
  rw [h.slice_eq (Nat.le_refl _), List.take_length]

/-- The word where a number was written. -/
theorem word_eq (h : Stands (le32 n) body here) : word body here = n % 4294967296 := by
  rw [word, ← ofLe32_le32]
  exact congrArg ofLe32 h.slice_length

/-- A reference is followed to its target, if that lies in the region. -/
theorem target?_eq {source target size : Nat} {r : Region} {field : Nat}
    (h : Stands (offset source target) body field) (hnear : source ≤ longestText)
    (hstart : r.start ≤ target) (hstop : target + size ≤ r.stop) (hle : target ≤ source) :
    target? body source field size r = some target := by
  have hword : signed (word body field) = (target : Int) - source := by
    rw [← signed_ofLe32_offset hle hnear, word]
    exact congrArg (fun bytes => signed (ofLe32 bytes)) h.slice_length
  rw [target?, hword, if_pos (by omega)]
  congr 1
  omega

end Stands

/-! ### Readers that undo layouts -/

/-- The reader undoes the layout of a value: wherever the value's bytes stand, it finds the value,
passes its head, and leaves what lies behind its out-of-line bytes to be referred to. -/
def Reads (l : Layout) (reader : Reader α) (x : α) : Prop :=
  ∀ (body : Bytes) (start here : Nat) (r : Region),
    Stands (l.out start) body start → Stands (l.head start here) body here →
    r.start ≤ start → start + l.extent start ≤ r.stop → r.stop ≤ here →
    here + l.size ≤ longestText →
    ∃ next ≤ start + l.extent start,
      reader body ⟨here, r⟩ = some (x, ⟨here + l.size, next, r.stop⟩)

namespace Reads

/-- **Pairs.** A reader and then another undo the layouts of their values one after the other. -/
theorem bind {l m : Layout} {reader : Reader α} {next : α → Reader β} {x : α} {y : β}
    (hx : Reads l reader x) (hy : Reads m (next x) y) : Reads (l.pair m) (reader >>= next) y := by
  intro body start here r hout hhead hstart hstop hbefore hnear
  obtain ⟨hout₁, hout₂⟩ := Stands.append_iff.mp hout
  obtain ⟨hhead₁, hhead₂⟩ := Stands.append_iff.mp hhead
  rw [l.length_out] at hout₂
  rw [l.length_head] at hhead₂
  simp only [Layout.pair] at hstop hnear ⊢
  obtain ⟨middle, hmiddle, hfirst⟩ :=
    hx body start here r hout₁ hhead₁ hstart (by omega) hbefore (by omega)
  obtain ⟨last, hlast, hsecond⟩ := hy body (start + l.extent start) (here + l.size) ⟨middle, r.stop⟩
    hout₂ hhead₂ hmiddle (by dsimp only; omega) (by dsimp only; omega) (by omega)
  refine ⟨last, by omega, ?_⟩
  have hbind : (reader >>= next) body ⟨here, r⟩ =
      (reader body ⟨here, r⟩).bind fun z => next z.1 body z.2 := rfl
  rw [hbind, hfirst, Option.bind_some, hsecond, Nat.add_assoc]

/-- What is read may be taken as something else. -/
theorem map {l : Layout} {reader : Reader α} {x : α} (h : Reads l reader x) (f : α → β) :
    Reads l (reader >>= fun y => Pure.pure (f y)) (f x) := by
  intro body start here r hout hhead hstart hstop hbefore hnear
  obtain ⟨next, hnext, hread⟩ := h body start here r hout hhead hstart hstop hbefore hnear
  refine ⟨next, hnext, ?_⟩
  have hbind : (reader >>= fun y => Pure.pure (f y) : Reader β) body ⟨here, r⟩ =
      (reader body ⟨here, r⟩).bind fun z => some (f z.1, z.2) := rfl
  rw [hbind, hread, Option.bind_some]

/-- Nothing is read where nothing was written. -/
theorem pure (x : α) : Reads (gap 0) (Pure.pure x : Reader α) x :=
  fun _ _ _ r _ _ hstart _ _ _ => ⟨r.start, hstart, rfl⟩

/-- Unused bytes are passed over. -/
theorem skip (n : Nat) : Reads (gap n) (Archive.skip n) () :=
  fun _ _ _ r _ _ hstart _ _ _ => ⟨r.start, hstart, rfl⟩

end Reads

/-- A byte that is a place in a list is read as what has that place. -/
theorem reads_byte {values : List α} {byte : UInt8} {x : α} (h : values[byte.toNat]? = some x) :
    Reads (Archive.byte byte) (readIndex values) x := by
  intro body start here r _ hhead hstart _ _ _
  refine ⟨r.start, hstart, ?_⟩
  have hslice : slice body here 1 = [byte] := hhead.slice_length
  rw [readIndex, hslice, List.head?_cons, Option.bind_some, h]
  rfl

/-! ### Texts -/

/-- A head that holds a text is told from a reference. -/
theorem isInline_headD (s : String) (k : Nat) :
    isInline ((Bytes.ofString s ++ List.replicate k 0xFF).headD 0) = true := by
  rw [isInline, bne_iff_ne]
  by_cases hs : s = ""
  · have hnil : Bytes.ofString s = [] := by
      rw [hs, Bytes.ofString_eq]
      rfl
    rw [hnil, List.nil_append]
    cases k with
    | zero => decide
    | succ k => exact (by decide : (0xFF : UInt8).toNat / 64 ≠ 2)
  · exact Bytes.headD_ofString_append hs _ _

/-- A reference is told from a head that holds a text. -/
theorem isInline_packLength (n : Nat) (rest : Bytes) :
    isInline ((le32 (packLength n) ++ rest).headD 0) = false := by
  simp only [isInline, le32, List.map_cons, List.cons_append, List.headD_cons, UInt8.toNat_ofNat',
    packLength, bne_eq_false_iff_eq]
  omega

/-- The text in a head that holds one. -/
theorem takeWhile_filler (s : String) (k : Nat) :
    (Bytes.ofString s ++ List.replicate k 0xFF).takeWhile (· != 0xFF) = Bytes.ofString s := by
  rw [List.takeWhile_append_of_pos]
  · cases k with
    | zero => simp
    | succ k => simp [List.replicate_succ]
  · intro b hb
    exact bne_iff_ne.mpr (Bytes.ne_filler_of_mem_ofString hb)

/-- A text is read back. -/
theorem reads_text (s : String) : Reads (text s) readText s := by
  intro body start here r hout hhead hstart hstop hbefore hnear
  have hslice : slice body here headSize = (text s).head start here := by
    have h := hhead.slice_length
    rwa [(text s).length_head] at h
  by_cases hsize : s.utf8ByteSize ≤ inlineSize
  · refine ⟨r.start, Nat.le_trans hstart (Nat.le_add_right _ _), ?_⟩
    simp only [text, if_pos hsize] at hslice
    simp only [readText, hslice, isInline_headD, if_true, takeWhile_filler,
      Bytes.toString?_ofString]
    rfl
  · simp only [text, if_neg hsize] at hslice hout hhead hstop hnear ⊢
    obtain ⟨hlength, htarget⟩ := Stands.append_iff.mp hhead
    have hfits : s.utf8ByteSize ≤ longestText := by omega
    have hword : unpackLength (word body here) = s.utf8ByteSize := by
      rw [hlength.word_eq, Nat.mod_eq_of_lt (packLength_lt hfits), unpackLength_packLength]
    have hplace : target? body here (here + 4) s.utf8ByteSize r = some start :=
      htarget.target?_eq (by omega) hstart hstop (by omega)
    have htext : slice body start s.utf8ByteSize = Bytes.ofString s := by
      rw [← Bytes.length_ofString, hout.slice_length]
    refine ⟨start + s.utf8ByteSize, Nat.le_refl _, ?_⟩
    simp only [readText, hslice, isInline_packLength, Bool.false_eq_true, if_false, hword,
      if_neg hsize, hplace, Option.bind_eq_bind, Option.bind_some, htext, Bytes.toString?_ofString]
    rfl

/-! ### Lists of texts -/

/-- The heads of the items of a list. -/
theorem size_items (list : List String) : (items list).size = list.length * headSize := by
  induction list with
  | nil => rfl
  | cons s list ih =>
    have hsize : (items (s :: list)).size = headSize + (items list).size := rfl
    rw [hsize, ih, List.length_cons, Nat.succ_mul, Nat.add_comm]

/-- The items of a list are read back. -/
theorem reads_items (list : List String) :
    Reads (items list) (readMany readText list.length) list := by
  induction list with
  | nil => exact Reads.pure []
  | cons s list ih => exact (reads_text s).bind (ih.map (s :: ·))

/-- A value that is written as a whole has its head at a multiple of four. -/
theorem place_mod_four (l : Layout) (start : Nat) : l.place start % 4 = 0 := by
  rw [Layout.place, fillSize]
  omega

/-- The parts of a value that is written as a whole. -/
theorem Stands.of_whole {l : Layout} (h : Stands (l.whole start) body start) :
    Stands (l.out start) body start ∧
      Stands (l.head start (l.place start)) body (l.place start) := by
  obtain ⟨hout, hrest⟩ := Stands.append_iff.mp h
  obtain ⟨-, hhead⟩ := Stands.append_iff.mp hrest
  rw [l.length_out, List.length_replicate] at hhead
  exact ⟨hout, hhead⟩

/-- A list of texts is read back. -/
theorem reads_texts (list : List String) : Reads (texts list) readTexts list := by
  intro body start here r hwhole hhead hstart hstop hbefore hnear
  obtain ⟨hout, hheads⟩ := Stands.of_whole hwhole
  obtain ⟨htarget, hlength⟩ := Stands.append_iff.mp hhead
  have hend : start + (texts list).extent start =
      (items list).place start + list.length * headSize := by
    rw [← size_items]
    simp only [texts, Layout.wholeSize, Layout.place]
    omega
  have hextent : start + (items list).extent start ≤ (items list).place start :=
    Nat.le_add_right _ _
  have hcount : word body (here + 4) = list.length := by
    refine hlength.word_eq.trans (Nat.mod_eq_of_lt ?_)
    rw [headSize] at hend
    rw [longestText] at hnear
    omega
  have hplace :
      target? body here here (list.length * headSize) r = some ((items list).place start) :=
    htarget.target?_eq (by omega) (by omega) (by omega) (by omega)
  obtain ⟨next, -, hitems⟩ := reads_items list body start ((items list).place start)
    ⟨r.start, (items list).place start⟩ hout hheads hstart hextent (Nat.le_refl _)
    (by rw [size_items]; omega)
  refine ⟨(items list).place start + list.length * headSize, by omega, ?_⟩
  simp only [readTexts, hcount, hplace, Option.bind_eq_bind, Option.bind_some, place_mod_four,
    ne_eq, not_true_eq_false, if_false, hitems]
  rfl

/-! ### Messages -/

/-- **Messages.** What was written as a whole is read back, if all of it is within reach. -/
theorem unpack_pack {l : Layout} {reader : Reader α} {x : α} (h : Reads l reader x)
    (hnear : l.wholeSize 0 ≤ longestText) : unpack l.size reader (pack l) = some x := by
  have hlength : (pack l).length = l.place 0 + l.size := by
    rw [pack, l.length_whole, Layout.wholeSize, Layout.place]
    omega
  have hsize : l.place 0 + l.size ≤ longestText := by
    rwa [← hlength, pack, l.length_whole]
  obtain ⟨hout, hhead⟩ := Stands.of_whole (Stands.refl (pack l))
  obtain ⟨next, -, hread⟩ := h (pack l) 0 (l.place 0) ⟨0, l.place 0⟩ hout hhead (Nat.le_refl _)
    (Nat.le_add_right _ _) (Nat.le_refl _) hsize
  have hplace : (pack l).length - l.size = l.place 0 := by omega
  have hmod := place_mod_four l 0
  rw [unpack, hplace, if_neg (by omega), hread]
  rfl

end IncrementalBuild.Archive
