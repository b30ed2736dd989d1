import IncrementalBuild.Json.Decoder
import IncrementalBuild.Proofs.Json.Spelling
/-!
# Reading every way to write a value

A decoder that is right for a value reads it from each text that stands for it, with blanks before
it and whatever follows. The statements go through the languages of the ways to write a value:
one for each kind of single value, and one for lists of them.

## Main definitions

* `Json.Reads` — a decoder reads a value from a text.
* `Json.Starts` — a text in which a value begins.
* `Json.Accepts` — a decoder reads a value from every text of a language.

## Main results

* `Json.stringRest_text` — strings.
* `Json.accepts_text`, `Json.accepts_bool`, `Json.accepts_choice`, `Json.accepts_list` — values.
* `Json.Accepts.decode` — whole texts.
-/

namespace IncrementalBuild.Json

open scoped Computability
open Spelling (blanks continued separated)

variable {α : Type} {l : Language Char} {ls : List (Language Char)} {a : α} {as : List α}
  {b x y : List Char}

/-- A decoder reads a value from a text, and leaves what follows the text. -/
def Reads (d : Decoder α) (cs : List Char) (a : α) : Prop :=
  ∀ rest, d (cs ++ rest) = .ok (a, rest)

/-- What is read is read by a decoder that makes more of it. -/
theorem Reads.map {β : Type} {d : Decoder α} {cs : List Char} (h : Reads d cs a)
    (f : α → β) : Reads (d.map f) cs (f a) := by
  intro rest
  rw [Decoder.map, h rest]

/-! ### Blanks -/

/-- Nothing is skipped before a character that is no blank. -/
theorem skipSpace_cons {c : Char} (h : isSpace c = false) (cs : List Char) :
    skipSpace (c :: cs) = c :: cs := by
  rw [skipSpace, List.dropWhile_cons, h]
  rfl

/-- What may stand between two tokens is made of blanks. -/
theorem isSpace_of_mem (hb : b ∈ blanks) : ∀ c ∈ b, isSpace c = true := by
  have hall : ∀ c ∈ Spelling.blankCharacters, isSpace c = true := List.all_eq_true.mp (by decide)
  exact fun c hc => hall c (Spelling.mem_of_blanks hb c hc)

/-- Blanks are skipped. -/
theorem skipSpace_append (hb : b ∈ blanks) (cs : List Char) :
    skipSpace (b ++ cs) = skipSpace cs :=
  List.dropWhile_append_of_pos (isSpace_of_mem hb)

/-- Blanks are skipped up to a character that is none. -/
theorem skipSpace_append_cons (hb : b ∈ blanks) {c : Char} (h : isSpace c = false)
    (cs : List Char) : skipSpace (b ++ c :: cs) = c :: cs := by
  rw [skipSpace_append hb, skipSpace_cons h]

/-- After blanks were skipped there are none. -/
theorem skipSpace_skipSpace (cs : List Char) : skipSpace (skipSpace cs) = skipSpace cs := by
  induction cs with
  | nil => rfl
  | cons c cs ih =>
    cases h : isSpace c with
    | true =>
      have hcons : skipSpace (c :: cs) = skipSpace cs := List.dropWhile_cons_of_pos h
      rw [hcons, ih]
    | false => rw [skipSpace_cons h, skipSpace_cons h]

/-- A text in which a value begins: neither a blank nor the end of a list stands at its front. -/
def Starts (cs : List Char) : Prop :=
  ∃ c rest, cs = c :: rest ∧ isSpace c = false ∧ c ≠ ']'

/-- A word is dropped from the front of a text. -/
theorem dropWord?_append (cs rest : List Char) : dropWord? cs (cs ++ rest) = some rest := by
  induction cs with
  | nil => rfl
  | cons c cs ih => rw [List.cons_append, dropWord?, if_pos rfl, ih]

/-- The rest of a word is read. -/
theorem literal_append (s : String) (v : α) (rest : List Char) :
    literal s v (word s ++ rest) = .ok (v, rest) := by
  rw [literal, dropWord?_append]

/-! ### Reading every way to write a value -/

/-- A decoder reads a value from every text of a language, with blanks before it. -/
structure Accepts (d : Decoder α) (l : Language Char) (a : α) : Prop where
  starts : ∀ x ∈ l, Starts x
  reads : ∀ b ∈ blanks, ∀ x ∈ l, Reads d (b ++ x) a

namespace Accepts

/-- What is accepted is accepted by a decoder that makes more of it. -/
theorem map {β : Type} {d : Decoder α} (h : Accepts d l a) (f : α → β) :
    Accepts (d.map f) l (f a) :=
  ⟨h.starts, fun b hb x hx => (h.reads b hb x hx).map f⟩

/-- A decoder that skips blanks first need only read the texts without them. -/
theorem of_reads {d : Decoder α} (hskip : ∀ cs, d (skipSpace cs) = d cs)
    (hstarts : ∀ x ∈ l, Starts x) (hreads : ∀ x ∈ l, Reads d x a) : Accepts d l a := by
  refine ⟨hstarts, ?_⟩
  intro b hb x hx rest
  rw [List.append_assoc, ← hskip, skipSpace_append hb, hskip, hreads x hx rest]

/-- What is accepted is read without blanks before it, too. -/
theorem reads_mem {d : Decoder α} (h : Accepts d l a) (hx : x ∈ l) : Reads d x a :=
  h.reads [] Spelling.nil_mem_blanks x hx

/-- **Whole texts.** A value is read from every text that stands for it. -/
theorem decode {d : Decoder α} (h : Accepts d l a) (hx : x ∈ Spelling.whole l) :
    decode d x = .ok a := by
  obtain ⟨_, ⟨b, hb, y, hy, rfl⟩, e, he, rfl⟩ := hx
  have hread := h.reads b hb y hy e
  have hend : skipSpace e = [] := by
    have happend := skipSpace_append he []
    rwa [List.append_nil] at happend
  rw [Json.decode, hread]
  exact if_pos hend

end Accepts

/-! ### Strings -/

/-- A hexadecimal digit is read as its value. -/
theorem hexValue?_of_mem {n : Nat} (hn : n < 16) {c : Char} (hc : [c] ∈ Spelling.hexDigit n) :
    Bytes.hexValue? c = some n := by
  have hall : ∀ n < 16, (Spelling.smallDigits[n]?.toList ++ Spelling.capitalDigits[n]?.toList).all
      (fun c => Bytes.hexValue? c == some n) = true := by decide
  obtain ⟨d, hd, heq⟩ := hc
  rw [(List.cons.inj heq).1]
  exact beq_iff_eq.mp (List.all_eq_true.mp (hall n hn) d hd)

/-- An escape with four digits is made of those of its code. -/
theorem exists_quad?_of_mem {n : Nat} (hn : n < 0x10000) (hx : x ∈ Spelling.code n) :
    ∃ a b c d, quad? a b c d = some n ∧ x = ['\\', 'u', a, b, c, d] := by
  obtain ⟨a, b, c, d, ha, hb, hc, hd, rfl⟩ := Spelling.mem_code.mp hx
  have hlt (k : Nat) : k % 16 < 16 := Nat.mod_lt k (by decide)
  refine ⟨a, b, c, d, ?_, rfl⟩
  simp only [quad?, hexValue?_of_mem (hlt _) ha, hexValue?_of_mem (hlt _) hb,
    hexValue?_of_mem (hlt _) hc, hexValue?_of_mem (hlt _) hd, bind, Option.bind, pure]
  congr 1
  omega

/-- A letter stands for its character. -/
theorem unescape?_of_mem {c k : Char} (h : (c, k) ∈ Spelling.letters) :
    k ≠ 'u' ∧ unescape? k = some c := by
  have hall : ∀ p ∈ Spelling.letters, p.2 ≠ 'u' ∧ unescape? p.2 = some p.1 := by decide
  exact hall (c, k) h

/-- The code of a character is not half of another one. -/
theorem not_isHalf (c : Char) : isHighHalf c.toNat = false ∧ isLowHalf c.toNat = false := by
  have hvalid : c.toNat < 0xD800 ∨ 0xDFFF < c.toNat ∧ c.toNat < 0x110000 := c.valid
  simp only [isHighHalf, isLowHalf, Bool.and_eq_false_iff, decide_eq_false_iff_not]
  omega

/-- An escape with four digits stands for the character of its code, if that is not half of
another one. -/
theorem stringRest_code {a b c d : Char} {n : Nat} (hquad : quad? a b c d = some n)
    (hhigh : isHighHalf n = false) (hlow : isLowHalf n = false) (rest : List Char) :
    stringRest ('\\' :: 'u' :: a :: b :: c :: d :: rest) =
      (stringRest rest).map fun r => (Char.ofNat n :: r.1, r.2) := by
  rw [stringRest.eq_def]
  -- the two cases of an escape with digits: another such escape follows, or none does
  split
  case h_1 heq => cases heq
  case h_2 heq => simp at heq
  case h_3 heq =>
    obtain ⟨rfl, rfl, rfl, rfl, rfl⟩ : _ ∧ _ ∧ _ ∧ _ ∧ _ := by
      simpa only [List.cons.injEq, true_and] using heq
    simp only [hquad, hhigh, hlow, Bool.false_eq_true, if_false]
  case h_4 heq =>
    obtain ⟨rfl, rfl, rfl, rfl, rfl⟩ : _ ∧ _ ∧ _ ∧ _ ∧ _ := by
      simpa only [List.cons.injEq, true_and] using heq
    simp only [hquad, hhigh, hlow, Bool.or_self, Bool.false_eq_true, if_false]
  case h_5 hfour heq =>
    obtain ⟨-, rfl, rfl⟩ := heq
    exact (hfour a b c d rest rfl rfl).elim
  case h_6 hother heq =>
    obtain ⟨rfl, rfl⟩ := heq
    exact (hother 'u' _ rfl rfl).elim

/-- An escape of one letter stands for its character. -/
theorem stringRest_letter {c x : Char} (hc : c ≠ 'u') (hx : unescape? c = some x)
    (rest : List Char) :
    stringRest ('\\' :: c :: rest) = (stringRest rest).map fun r => (x :: r.1, r.2) := by
  rw [stringRest.eq_def]
  split
  case h_1 heq => cases heq
  case h_2 heq => simp at heq
  case h_3 heq => exact absurd (List.cons.inj (List.cons.inj heq).2).1 hc
  case h_4 heq => exact absurd (List.cons.inj (List.cons.inj heq).2).1 hc
  case h_5 heq =>
    obtain ⟨-, rfl, rfl⟩ := heq
    rw [hx]
  case h_6 hother heq =>
    obtain ⟨rfl, rfl⟩ := heq
    exact (hother c rest rfl rfl).elim

/-- Any other character stands for itself. -/
theorem stringRest_cons {c : Char} (hquote : c ≠ '"') (hslash : c ≠ '\\') (hprint : 0x20 ≤ c.toNat)
    (rest : List Char) :
    stringRest (c :: rest) = (stringRest rest).map fun r => (c :: r.1, r.2) := by
  rw [stringRest.eq_def]
  split
  case h_1 heq => cases heq
  case h_2 heq => exact absurd (List.cons.inj heq).1 hquote
  case h_3 heq => exact absurd (List.cons.inj heq).1 hslash
  case h_4 heq => exact absurd (List.cons.inj heq).1 hslash
  case h_5 heq => exact absurd (List.cons.inj heq).1 hslash
  case h_6 heq =>
    obtain ⟨rfl, rfl⟩ := heq
    exact if_neg (not_or.mpr ⟨hslash, Nat.not_lt.mpr hprint⟩)

/-- The escapes of two halves stand for the character that they make. -/
theorem stringRest_halves {a b c d e f g h : Char} {n m : Nat} (hfirst : quad? a b c d = some n)
    (hsecond : quad? e f g h = some m) (hhigh : isHighHalf n = true) (hlow : isLowHalf m = true)
    (rest : List Char) :
    stringRest ('\\' :: 'u' :: a :: b :: c :: d :: '\\' :: 'u' :: e :: f :: g :: h :: rest) =
      (stringRest rest).map fun r => (joinHalves n m :: r.1, r.2) := by
  have hnot : isLowHalf n = false := by
    simp only [isHighHalf, isLowHalf, Bool.and_eq_true, Bool.and_eq_false_iff, decide_eq_true_eq,
      decide_eq_false_iff_not] at hhigh ⊢
    omega
  rw [stringRest]
  simp only [hfirst, hsecond, hnot, hhigh, hlow, Bool.false_eq_true, if_false, if_true]

/-- The halves of a character beyond the basic plane make that character. -/
theorem joinHalves_eq {c : Char} (h : 0x10000 ≤ c.toNat) :
    joinHalves (0xD800 + (c.toNat - 0x10000) / 0x400)
      (0xDC00 + (c.toNat - 0x10000) % 0x400) = c := by
  have hcode : 0x10000 + (0xD800 + (c.toNat - 0x10000) / 0x400 - 0xD800) * 0x400 +
      (0xDC00 + (c.toNat - 0x10000) % 0x400 - 0xDC00) = c.toNat := by omega
  rw [joinHalves, hcode, Char.ofNat_toNat]

/-- A character that is escaped with its codes is read as itself. -/
theorem stringRest_codes {c : Char} (hx : x ∈ ((Spelling.codes c).map Spelling.code).prod)
    (rest : List Char) :
    stringRest (x ++ rest) = (stringRest rest).map fun r => (c :: r.1, r.2) := by
  by_cases hbasic : c.toNat < 0x10000
  · have hcodes : Spelling.codes c = [c.toNat] := if_pos hbasic
    rw [hcodes, List.map_cons, List.map_nil, List.prod_singleton] at hx
    obtain ⟨d₁, d₂, d₃, d₄, hquad, rfl⟩ := exists_quad?_of_mem hbasic hx
    obtain ⟨hhigh, hlow⟩ := not_isHalf c
    have hread := stringRest_code hquad hhigh hlow rest
    rwa [Char.ofNat_toNat] at hread
  · have hcodes : Spelling.codes c = [0xD800 + (c.toNat - 0x10000) / 0x400,
        0xDC00 + (c.toNat - 0x10000) % 0x400] := if_neg hbasic
    have hvalid : c.toNat < 0xD800 ∨ 0xDFFF < c.toNat ∧ c.toNat < 0x110000 := c.valid
    rw [hcodes, List.map_cons, List.map_cons, List.map_nil, List.prod_cons,
      List.prod_singleton] at hx
    obtain ⟨y, hy, z, hz, rfl⟩ := Language.mem_mul.mp hx
    obtain ⟨d₁, d₂, d₃, d₄, hfirst, rfl⟩ := exists_quad?_of_mem (by omega) hy
    obtain ⟨e₁, e₂, e₃, e₄, hsecond, rfl⟩ := exists_quad?_of_mem (by omega) hz
    have hhigh : isHighHalf (0xD800 + (c.toNat - 0x10000) / 0x400) = true := by
      simp only [isHighHalf, Bool.and_eq_true, decide_eq_true_eq]
      omega
    have hlow : isLowHalf (0xDC00 + (c.toNat - 0x10000) % 0x400) = true := by
      simp only [isLowHalf, Bool.and_eq_true, decide_eq_true_eq]
      omega
    have hread := stringRest_halves hfirst hsecond hhigh hlow rest
    rwa [joinHalves_eq (Nat.not_lt.mp hbasic)] at hread

/-- A character is read from each of the ways to write it. -/
theorem stringRest_character {c : Char} (hx : x ∈ Spelling.character c) (rest : List Char) :
    stringRest (x ++ rest) = (stringRest rest).map fun r => (c :: r.1, r.2) := by
  rcases hx with (⟨⟨hquote, hslash, hprint⟩, rfl⟩ | ⟨k, hk, rfl⟩) | hcodes
  · exact stringRest_cons hquote hslash hprint rest
  · obtain ⟨hu, hletter⟩ := unescape?_of_mem hk
    exact stringRest_letter hu hletter rest
  · exact stringRest_codes hcodes rest

/-- The characters of a string are read up to its quote. -/
theorem stringRest_characters {cs : List Char} (hx : x ∈ (cs.map Spelling.character).prod)
    (rest : List Char) : stringRest (x ++ '"' :: rest) = .ok (cs, rest) := by
  induction cs generalizing x with
  | nil =>
    obtain rfl : x = [] := hx
    rfl
  | cons c cs ih =>
    rw [List.map_cons, List.prod_cons] at hx
    obtain ⟨y, hy, z, hz, rfl⟩ := Language.mem_mul.mp hx
    rw [List.append_assoc, stringRest_character hy, ih hz]
    rfl

/-- **Strings.** A string begins with its quote, and what follows is read as its text. -/
theorem stringRest_text {s : String} (hx : x ∈ Spelling.text s) :
    ∃ body, x = '"' :: body ∧ ∀ rest, stringRest (body ++ rest) = .ok (s.toList, rest) := by
  obtain ⟨y, hy, rfl⟩ := Spelling.mem_quoted.mp hx
  refine ⟨y ++ ['"'], rfl, ?_⟩
  intro rest
  rw [List.append_assoc]
  exact stringRest_characters hy rest

/-! ### Single values -/

/-- A quoted text begins with its quote. -/
theorem starts_text {s : String} (hx : x ∈ Spelling.text s) : Starts x := by
  obtain ⟨body, rfl, -⟩ := stringRest_text hx
  exact ⟨'"', body, rfl, rfl, by decide⟩

/-- A text is read from each of the ways to write it. -/
theorem accepts_text (s : String) : Accepts text (Spelling.text s) s := by
  refine .of_reads ?_ (fun x hx => starts_text hx) ?_
  · intro cs
    simp only [text, skipSpace_skipSpace]
  · intro x hx rest
    obtain ⟨body, rfl, hbody⟩ := stringRest_text hx
    rw [List.cons_append, text, skipSpace_cons (by decide)]
    simp only [hbody, Except.map, String.ofList_toList]

/-- A truth value is read. -/
theorem accepts_bool (v : Bool) : Accepts bool (Spelling.bool v) v := by
  refine .of_reads ?_ ?_ ?_
  · intro cs
    simp only [bool, skipSpace_skipSpace]
  · rintro x rfl
    cases v
    · exact ⟨'f', _, rfl, rfl, by decide⟩
    · exact ⟨'t', _, rfl, rfl, by decide⟩
  · rintro x rfl
    cases v <;> exact fun _ => rfl

/-- A name of one of several values is read as that value. -/
theorem accepts_choice {values : List (String × α)} {name : String}
    (h : values.lookup name = some a) : Accepts (choice values) (Spelling.choice name) a := by
  refine .of_reads ?_ ?_ ?_
  · intro cs
    simp only [choice, skipSpace_skipSpace]
  · rintro x (hx | hx)
    · exact starts_text hx
    · obtain ⟨b, -, y, -, e, -, rfl⟩ := Spelling.mem_bracketed_singleton hx
      exact ⟨'\x7b', _, rfl, rfl, by decide⟩
  · rintro x (hx | hx) rest
    · have htext := (accepts_text name).reads_mem hx rest
      obtain ⟨body, rfl, -⟩ := stringRest_text hx
      rw [List.cons_append] at htext
      rw [List.cons_append, choice, skipSpace_cons (by decide)]
      simp only [htext, h]
    · obtain ⟨b, hb, y, hy, e, he, rfl⟩ := Spelling.mem_bracketed_singleton hx
      obtain ⟨n, hn, b₁, hb₁, b₂, hb₂, v, rfl, rfl⟩ := Spelling.mem_member.mp hy
      have htext := (accepts_text name).reads_mem hn
        (b₁ ++ ':' :: (b₂ ++ ('n' :: (word "ull" ++ (e ++ '\x7d' :: rest)))))
      have hnull : word "null" = 'n' :: word "ull" := rfl
      obtain ⟨body, rfl, -⟩ := stringRest_text hn
      simp only [hnull, List.cons_append, List.nil_append, List.append_assoc] at htext ⊢
      rw [choice, skipSpace_cons (by decide)]
      simp only [skipSpace_append_cons hb (by decide : isSpace '"' = false), htext, h,
        skipSpace_append_cons hb₁ (by decide : isSpace ':' = false),
        skipSpace_append_cons hb₂ (by decide : isSpace 'n' = false), literal_append,
        skipSpace_append_cons he (by decide : isSpace '\x7d' = false)]

/-! ### Lists -/

/-- Items are read up to the end of their list, with fuel for each character. -/
theorem items_continued {d : Decoder α} (ha : Accepts d l a)
    (h : List.Forall₂ (fun a l => Accepts d l a) as ls) (hb : b ∈ blanks) (hx : x ∈ l)
    (hy : y ∈ continued ls) (rest : List Char) {fuel : Nat} (hfuel : (x ++ y).length < fuel) :
    items d fuel (b ++ (x ++ (y ++ ']' :: rest))) = .ok (a :: as, rest) := by
  induction h generalizing a l b x y fuel with
  | nil =>
    obtain ⟨fuel, rfl⟩ : ∃ n, fuel = n + 1 := ⟨fuel - 1, by omega⟩
    have hfirst := ha.reads b hb x hx (y ++ ']' :: rest)
    have hend : skipSpace (y ++ ']' :: rest) = ']' :: rest := skipSpace_append_cons hy (by decide) _
    rw [List.append_assoc] at hfirst
    simp only [items, hfirst, hend]
  | @cons a' l' as ls ha' _ ih =>
    obtain ⟨fuel, rfl⟩ : ∃ n, fuel = n + 1 := ⟨fuel - 1, by omega⟩
    obtain ⟨b₁, hb₁, b₂, hb₂, z, hz, w, hw, rfl⟩ := Spelling.mem_continued_cons.mp hy
    have hfirst := ha.reads b hb x hx (b₁ ++ ',' :: (b₂ ++ (z ++ (w ++ ']' :: rest))))
    have hlength : (z ++ w).length < fuel := by
      simp only [List.length_append, List.length_cons] at hfuel ⊢
      omega
    have hrest := ih ha' hb₂ hz hw hlength
    simp only [List.append_assoc, List.cons_append] at hfirst ⊢
    simp only [items, hfirst, skipSpace_append_cons hb₁ (by decide : isSpace ',' = false), hrest,
      Except.map]

/-- **Lists.** A list is read from each of the ways to write it, if its items are. -/
theorem accepts_list {d : Decoder α} (h : List.Forall₂ (fun a l => Accepts d l a) as ls) :
    Accepts (list d) (Spelling.list ls) as := by
  refine .of_reads ?_ ?_ ?_
  · intro cs
    simp only [list, skipSpace_skipSpace]
  · intro x hx
    obtain ⟨b, -, y, -, rfl⟩ := Spelling.mem_bracketed.mp hx
    exact ⟨'[', _, rfl, rfl, by decide⟩
  · intro x hx rest
    obtain ⟨b, hb, y, hy, rfl⟩ := Spelling.mem_bracketed.mp hx
    simp only [List.cons_append, List.append_assoc, List.nil_append]
    rw [list, skipSpace_cons (by decide)]
    cases h with
    | nil =>
      obtain rfl : y = [] := hy
      simp only [List.nil_append, skipSpace_append_cons hb (by decide : isSpace ']' = false)]
    | @cons a l as ls ha has =>
      obtain ⟨first, hfirst, others, hothers, rfl⟩ := Language.mem_mul.mp hy
      have hread (fuel : Nat) (hfuel : (first ++ others).length < fuel) :=
        items_continued ha has Spelling.nil_mem_blanks hfirst hothers rest hfuel
      obtain ⟨c, cs, rfl, hspace, hend⟩ := ha.starts first hfirst
      simp only [List.cons_append, List.append_assoc, List.nil_append] at hread ⊢
      rw [skipSpace_append_cons hb hspace]
      split
      case h_1 heq => exact absurd (List.cons.inj heq).1 hend
      case h_2 =>
        refine hread _ ?_
        simp only [List.length_append, List.length_cons]
        omega

/-- A list of texts is read. -/
theorem accepts_texts (items : List String) :
    Accepts (list text) (Spelling.texts items) items := by
  refine accepts_list ?_
  rw [List.forall₂_map_right_iff, List.forall₂_same]
  exact fun s _ => accepts_text s

end IncrementalBuild.Json
