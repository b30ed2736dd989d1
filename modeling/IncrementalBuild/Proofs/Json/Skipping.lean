import IncrementalBuild.Proofs.Json.Decoder
/-!
# Skipping what is not asked for

The members that a record does not have are skipped. A scalar is skipped in each of the ways to
write it, up to what follows it: a number has no end of its own, so what follows has to end it.

## Main definitions

* `Json.BeginsIn` — a text that begins with one of some characters.
* `Json.stops` — the characters that end a scalar among the members of an object.

## Main results

* `Json.skipString_pieces` — strings are skipped.
* `Json.exists_numeral` — numbers are taken apart.
* `Json.skip_scalar` — scalars are skipped.
-/

namespace IncrementalBuild.Json

open scoped Computability
open Spelling (blanks)

variable {b x rest : List Char}

/-! ### Strings -/

/-- An escape with four digits is skipped. -/
theorem skipString_code {n : Nat} (hn : n < 0x10000) (hx : x ∈ Spelling.code n) (rest : List Char) :
    skipString (x ++ rest) = skipString rest := by
  obtain ⟨a, b, c, d, hquad, rfl⟩ := exists_quad?_of_mem hn hx
  rw [List.cons_append, List.cons_append, List.cons_append, List.cons_append, List.cons_append,
    List.cons_append, List.nil_append, skipString, hquad]
  exact if_pos rfl

/-- An escape of one letter is skipped. -/
theorem skipString_letter {c k : Char} (hk : k ≠ 'u') (hletter : unescape? k = some c)
    (rest : List Char) : skipString ('\\' :: k :: rest) = skipString rest := by
  rw [skipString.eq_def]
  split
  case h_1 heq => cases heq
  case h_2 heq => simp at heq
  case h_3 heq => exact absurd (List.cons.inj (List.cons.inj heq).2).1 hk
  case h_4 heq =>
    obtain ⟨-, rfl, rfl⟩ := heq
    rw [hletter]
    exact if_pos rfl
  case h_5 hother heq =>
    obtain ⟨rfl, rfl⟩ := heq
    exact (hother k rest rfl rfl).elim

/-- Any other character is skipped. -/
theorem skipString_cons {c : Char} (hc : Spelling.IsPlain c) (rest : List Char) :
    skipString (c :: rest) = skipString rest := by
  obtain ⟨hquote, hslash, hprint⟩ := hc
  rw [skipString.eq_def]
  split
  case h_1 heq => cases heq
  case h_2 heq => exact absurd (List.cons.inj heq).1 hquote
  case h_3 heq => exact absurd (List.cons.inj heq).1 hslash
  case h_4 heq => exact absurd (List.cons.inj heq).1 hslash
  case h_5 heq =>
    obtain ⟨rfl, rfl⟩ := heq
    exact if_neg (not_or.mpr ⟨hslash, Nat.not_lt.mpr hprint⟩)

/-- The codes of a character fit into four digits. -/
theorem lt_of_mem_codes {c : Char} {n : Nat} (hn : n ∈ Spelling.codes c) : n < 0x10000 := by
  have hvalid : c.toNat < 0xD800 ∨ 0xDFFF < c.toNat ∧ c.toNat < 0x110000 := c.valid
  rw [Spelling.codes] at hn
  split at hn
  case isTrue h =>
    rw [List.mem_singleton.mp hn]
    exact h
  case isFalse h =>
    rcases List.mem_pair.mp hn with heq | heq
    · omega
    · omega

/-- Escapes with digits are skipped. -/
theorem skipString_codes {ns : List Nat} (hns : ∀ n ∈ ns, n < 0x10000)
    (hx : x ∈ (ns.map Spelling.code).prod) (rest : List Char) :
    skipString (x ++ rest) = skipString rest := by
  induction ns generalizing x with
  | nil =>
    obtain rfl : x = [] := hx
    rfl
  | cons n ns ih =>
    rw [List.map_cons, List.prod_cons] at hx
    obtain ⟨y, hy, z, hz, rfl⟩ := Language.mem_mul.mp hx
    have hothers := ih (fun m hm => hns m (List.mem_cons_of_mem n hm)) hz
    rw [List.append_assoc, skipString_code (hns n List.mem_cons_self) hy, hothers]

/-- A part of a string is skipped. -/
theorem skipString_piece (hx : x ∈ Spelling.piece) (rest : List Char) :
    skipString (x ++ rest) = skipString rest := by
  rcases hx with ⟨c, (⟨hplain, rfl⟩ | ⟨k, hk, rfl⟩) | hcodes⟩ | ⟨n, hn, hcode⟩
  · exact skipString_cons hplain rest
  · obtain ⟨hu, hletter⟩ := unescape?_of_mem hk
    exact skipString_letter hu hletter rest
  · exact skipString_codes (fun n hn => lt_of_mem_codes hn) hcodes rest
  · exact skipString_code hn hcode rest

/-- **Strings.** The parts of a string are skipped up to its quote. -/
theorem skipString_pieces (hx : x ∈ Spelling.piece∗) (rest : List Char) :
    skipString (x ++ '"' :: rest) = .ok rest := by
  obtain ⟨xs, rfl, hxs⟩ := Language.mem_kstar.mp hx
  clear hx
  induction xs with
  | nil => rfl
  | cons x xs ih =>
    have hothers := ih fun y hy => hxs y (List.mem_cons_of_mem x hy)
    rw [List.flatten_cons, List.append_assoc, skipString_piece (hxs x List.mem_cons_self), hothers]

/-! ### Numbers -/

/-- A text begins with one of some characters. -/
def BeginsIn (cs x : List Char) : Prop := ∃ c ∈ cs, ∃ rest, x = c :: rest

theorem BeginsIn.mono {cs ds : List Char} (h : BeginsIn cs x) (hsub : ∀ c ∈ cs, c ∈ ds) :
    BeginsIn ds x := by
  obtain ⟨c, hc, rest, rfl⟩ := h
  exact ⟨c, hsub c hc, rest, rfl⟩

/-- The characters that end a scalar among the members of an object. -/
def stops : List Char := Spelling.blankCharacters ++ [',', '\x7d']

/-- Digits are split off a text up to a character that is none. -/
theorem digits_append {ds : List Char} (hds : ∀ d ∈ ds, d.isDigit = true) {cs : List Char}
    (hcs : cs.any Char.isDigit = false) (hrest : BeginsIn cs rest) :
    digits (ds ++ rest) = (ds, rest) := by
  obtain ⟨c, hc, rest, rfl⟩ := hrest
  have hstop : ¬ c.isDigit = true := List.any_eq_false.mp hcs c hc
  rw [digits, List.span_eq_takeWhile_dropWhile, List.takeWhile_append_of_pos hds,
    List.dropWhile_append_of_pos hds, List.takeWhile_cons_of_neg hstop,
    List.dropWhile_cons_of_neg hstop, List.append_nil]

theorem isDigit_of_mem (hx : x ∈ Spelling.digit) : ∀ d ∈ x, d.isDigit = true := by
  have hall : ∀ d ∈ ['0', '1', '2', '3', '4', '5', '6', '7', '8', '9'], d.isDigit = true :=
    List.all_eq_true.mp (by decide)
  obtain ⟨c, hc, rfl⟩ := hx
  intro d hd
  rw [List.mem_singleton.mp hd]
  exact hall c hc

theorem isDigit_of_mem_kstar (hx : x ∈ Spelling.digit∗) : ∀ d ∈ x, d.isDigit = true := by
  obtain ⟨xs, rfl, hxs⟩ := Language.mem_kstar.mp hx
  intro d hd
  obtain ⟨y, hy, hmem⟩ := List.mem_flatten.mp hd
  exact isDigit_of_mem (hxs y hy) d hmem

/-- Digits of which there is at least one. -/
theorem exists_cons_of_mem_digits (hx : x ∈ Spelling.digits) :
    (∃ d ds, x = d :: ds) ∧ ∀ d ∈ x, d.isDigit = true := by
  obtain ⟨y, hy, z, hz, rfl⟩ := Language.mem_mul.mp hx
  have hfirst := isDigit_of_mem hy
  obtain ⟨d, -, rfl⟩ := hy
  refine ⟨⟨d, z, rfl⟩, ?_⟩
  intro e he
  rcases List.mem_append.mp he with he | he
  · exact hfirst e he
  · exact isDigit_of_mem_kstar hz e he

/-- What stands before the point is made of digits, and begins with a zero only if it is one. -/
theorem exists_cons_of_mem_integer (hx : x ∈ Spelling.integer) :
    (∃ d ds, x = d :: ds) ∧ (∀ d ∈ x, d.isDigit = true) ∧
      ¬ (x.head? = some '0' ∧ x.length ≠ 1) := by
  rcases hx with hzero | ⟨y, ⟨d, hd, rfl⟩, z, hz, rfl⟩
  · obtain rfl := Spelling.mem_mark.mp hzero
    exact ⟨⟨'0', [], rfl⟩, List.all_eq_true.mp (by decide), by decide⟩
  · have hall : ∀ d ∈ ['1', '2', '3', '4', '5', '6', '7', '8', '9'], d.isDigit = true :=
      List.all_eq_true.mp (by decide)
    have hdigit := hall d hd
    have hne : d ≠ '0' := by
      rintro rfl
      exact absurd hd (by decide)
    refine ⟨⟨d, z, rfl⟩, ?_, ?_⟩
    · intro e he
      rcases List.mem_cons.mp he with rfl | he
      · exact hdigit
      · exact isDigit_of_mem_kstar hz e he
    · rintro ⟨hhead, -⟩
      exact hne (Option.some.inj hhead)

/-- A point and the digits after it are read up to what ends them. -/
theorem exists_fractionPart (hx : x ∈ Spelling.fraction)
    (hrest : BeginsIn ('e' :: 'E' :: stops) rest) :
    ∃ f, fractionPart (x ++ rest) = .ok (f, rest) := by
  rcases hx with hnone | ⟨y, hy, ds, hds, rfl⟩
  · obtain rfl : x = [] := hnone
    obtain ⟨c, hc, rest, rfl⟩ := hrest
    refine ⟨none, ?_⟩
    rw [List.nil_append, fractionPart]
    rintro rest ⟨rfl, -⟩
    exact absurd hc (by decide)
  · obtain rfl := Spelling.mem_mark.mp hy
    obtain ⟨⟨d, ds, rfl⟩, hdigits⟩ := exists_cons_of_mem_digits hds
    have hsplit := digits_append hdigits (by decide) hrest
    refine ⟨some (d :: ds), ?_⟩
    simp only [List.cons_append, List.nil_append] at hsplit ⊢
    simp only [fractionPart, hsplit]

/-- An exponent is read up to what ends it. -/
theorem exists_exponentPart (hx : x ∈ Spelling.exponent) (hrest : BeginsIn stops rest) :
    ∃ e, exponentPart (x ++ rest) = .ok (e, rest) := by
  rcases hx with hnone | ⟨_, ⟨_, ⟨c, hc, rfl⟩, s, hs, rfl⟩, ds, hds, rfl⟩
  · obtain rfl : x = [] := hnone
    obtain ⟨c, hc, rest, rfl⟩ := hrest
    have hletter : ¬ (c = 'e' ∨ c = 'E') := by
      rintro (rfl | rfl)
      · exact absurd hc (by decide)
      · exact absurd hc (by decide)
    refine ⟨none, ?_⟩
    rw [List.nil_append, exponentPart.eq_def]
    exact if_neg hletter
  · obtain ⟨⟨d, ds, rfl⟩, hdigits⟩ := exists_cons_of_mem_digits hds
    have hsplit := digits_append hdigits (by decide) hrest
    have hletter : c = 'e' ∨ c = 'E' := List.mem_pair.mp hc
    have hdigit := hdigits d List.mem_cons_self
    rw [List.cons_append] at hsplit
    -- a digit is no sign
    rcases hs with hnone | ⟨sign, hsign, rfl⟩
    · obtain rfl : s = [] := hnone
      refine ⟨some (false, d :: ds), ?_⟩
      simp only [List.cons_append, List.nil_append, List.append_nil]
      rw [exponentPart]
      · simp only [if_pos hletter, hsplit]
      · rintro others ⟨rfl, -⟩
        exact absurd hdigit (by decide)
      · rintro others ⟨rfl, -⟩
        exact absurd hdigit (by decide)
    · rcases List.mem_pair.mp hsign with rfl | rfl
      · refine ⟨some (false, d :: ds), ?_⟩
        simp only [List.cons_append, List.nil_append, exponentPart, if_pos hletter, hsplit]
      · refine ⟨some (true, d :: ds), ?_⟩
        simp only [List.cons_append, List.nil_append, exponentPart, if_pos hletter, hsplit]

/-- **Numbers.** A number is taken apart, whatever ends it. -/
theorem exists_numeral (hx : x ∈ Spelling.number) (hrest : BeginsIn stops rest) :
    ∃ n, numeral (x ++ rest) = .ok (n, rest) := by
  obtain ⟨_, ⟨_, ⟨s, hs, i, hi, rfl⟩, f, hf, rfl⟩, e, he, rfl⟩ := hx
  have hexponent : BeginsIn ('e' :: 'E' :: stops) (e ++ rest) := by
    rcases he with hnone | ⟨_, ⟨_, ⟨c, hc, rfl⟩, t, -, rfl⟩, ds, -, rfl⟩
    · obtain rfl : e = [] := hnone
      exact hrest.mono fun c hc => List.mem_cons_of_mem 'e' (List.mem_cons_of_mem 'E' hc)
    · exact ⟨c, List.mem_append_left stops hc, _, rfl⟩
  have hfraction : BeginsIn ('.' :: 'e' :: 'E' :: stops) (f ++ (e ++ rest)) := by
    rcases hf with hnone | ⟨y, hy, ds, -, rfl⟩
    · obtain rfl : f = [] := hnone
      exact hexponent.mono fun c hc => List.mem_cons_of_mem '.' hc
    · obtain rfl := Spelling.mem_mark.mp hy
      exact ⟨'.', List.mem_cons_self, _, rfl⟩
  obtain ⟨⟨d, ds, rfl⟩, hdigits, hzero⟩ := exists_cons_of_mem_integer hi
  have hsplit := digits_append hdigits (by decide) hfraction
  obtain ⟨fraction, hf⟩ := exists_fractionPart hf hexponent
  obtain ⟨exponent, he⟩ := exists_exponentPart he hrest
  have hdigit := hdigits d List.mem_cons_self
  rw [List.cons_append] at hsplit
  rcases hs with hnone | hminus
  · obtain rfl : s = [] := hnone
    refine ⟨⟨false, d :: ds, fraction, exponent⟩, ?_⟩
    simp only [List.nil_append, List.cons_append, List.append_assoc]
    rw [numeral]
    · simp only [hsplit, if_neg hzero, hf, he]
    · rintro others ⟨rfl, -⟩
      exact absurd hdigit (by decide)
  · obtain rfl := Spelling.mem_mark.mp hminus
    refine ⟨⟨true, d :: ds, fraction, exponent⟩, ?_⟩
    simp only [List.nil_append, List.cons_append, List.append_assoc]
    simp only [numeral, hsplit, if_neg hzero, hf, he]

/-- A number begins with its sign or a digit. -/
theorem exists_startsNumber (hx : x ∈ Spelling.number) :
    ∃ c cs, x = c :: cs ∧ startsNumber c = true := by
  obtain ⟨_, ⟨_, ⟨s, hs, i, hi, rfl⟩, f, hf, rfl⟩, e, he, rfl⟩ := hx
  rcases hs with hnone | hminus
  · obtain rfl : s = [] := hnone
    obtain ⟨⟨d, ds, rfl⟩, hdigits, -⟩ := exists_cons_of_mem_integer hi
    have hdigit := hdigits d List.mem_cons_self
    exact ⟨d, _, rfl, by rw [startsNumber, hdigit, Bool.or_true]⟩
  · obtain rfl := Spelling.mem_mark.mp hminus
    exact ⟨'-', _, rfl, by decide⟩

/-! ### Scalars -/

/-- What begins like a number is skipped as one. -/
theorem skipValue_number {c : Char} (hc : startsNumber c = true) (hb : b ∈ blanks) (fuel : Nat)
    (cs : List Char) :
    skipValue (fuel + 1) (b ++ c :: cs) = (numeral (c :: cs)).map Prod.snd := by
  have hne (k : Char) (hk : startsNumber k = false) : c ≠ k := by
    rintro rfl
    rw [hk] at hc
    exact Bool.false_ne_true hc
  have hspace : isSpace c = false := by
    simp only [isSpace, Bool.or_eq_false_iff, beq_eq_false_iff_ne]
    exact ⟨⟨⟨hne ' ' (by decide), hne '\n' (by decide)⟩, hne '\t' (by decide)⟩,
      hne '\r' (by decide)⟩
  rw [skipValue, skipSpace_append_cons hb hspace]
  split
  case h_1 heq | h_2 heq | h_3 heq | h_4 heq | h_5 heq | h_6 heq =>
    exact absurd (List.cons.inj heq).1 (hne _ (by decide))
  case h_7 heq =>
    obtain ⟨rfl, rfl⟩ := heq
    exact if_pos hc
  case h_8 heq => cases heq

/-- **Scalars.** A scalar is skipped, whatever ends it. -/
theorem skip_scalar (hb : b ∈ blanks) (hx : x ∈ Spelling.scalar) (hrest : BeginsIn stops rest) :
    skip (b ++ (x ++ rest)) = .ok ((), rest) := by
  rw [skip]
  rcases hx with (((hnull | htrue) | hfalse) | hnumber) | hstring
  · obtain rfl : x = 'n' :: word "ull" := hnull
    rw [skipValue, List.cons_append, skipSpace_append_cons hb (by decide)]
    simp only [literal_append, Except.map]
  · obtain rfl : x = 't' :: word "rue" := htrue
    rw [skipValue, List.cons_append, skipSpace_append_cons hb (by decide)]
    simp only [literal_append, Except.map]
  · obtain rfl : x = 'f' :: word "alse" := hfalse
    rw [skipValue, List.cons_append, skipSpace_append_cons hb (by decide)]
    simp only [literal_append, Except.map]
  · obtain ⟨n, hread⟩ := exists_numeral hnumber hrest
    obtain ⟨c, cs, rfl, hc⟩ := exists_startsNumber hnumber
    rw [List.cons_append] at hread ⊢
    rw [skipValue_number hc hb, hread]
    rfl
  · obtain ⟨y, hy, rfl⟩ := Spelling.mem_quoted.mp hstring
    simp only [List.cons_append, List.append_assoc, List.nil_append]
    rw [skipValue, skipSpace_append_cons hb (by decide)]
    simp only [skipString_pieces hy, Except.map]

end IncrementalBuild.Json
