import IncrementalBuild.Proofs.Text.Bytes
import Mathlib.Tactic.SplitIfs
/-!
# Bytes as text, in spite of errors

Bytes that are UTF-8 are shown as the text that they spell, so in every case the text shown is told
from left to right. A byte that stands for itself ends whatever was incomplete before it, so bytes
can be cut there and each part be shown on its own.

## Main results

* `Bytes.lossyChars_ofString` — the bytes of a text are shown as the text.
* `Bytes.splitOn_lossyChars` — bytes and the text that they show have the same lines.
-/

namespace IncrementalBuild.Bytes

variable {code : Nat} {lead b lo hi : UInt8} {rest tail : Bytes}

/-! ### Continuation bytes -/

/-- A continuation byte within the bounds is taken. -/
theorem continueFrom_cons (code want : Nat) (rest : Bytes) (hb : lo ≤ b ∧ b ≤ hi) :
    continueFrom code (want + 1) lo hi (b :: rest) =
      continueFrom (code * 64 + (b.toNat - 0x80)) want 0x80 0xBF rest := by
  rw [continueFrom, if_pos hb]

/-- After the first one, every continuation byte is taken. -/
theorem continueFrom_tail (code want : Nat) (rest : Bytes)
    (hb : 0x80 ≤ b.toNat ∧ b.toNat ≤ 0xBF) :
    continueFrom code (want + 1) 0x80 0xBF (b :: rest) =
      continueFrom (code * 64 + (b.toNat - 0x80)) want 0x80 0xBF rest :=
  continueFrom_cons code want rest hb

/-- What one continuation byte follows. -/
theorem continuation_one (h : 0xC2 ≤ lead.toNat ∧ lead.toNat ≤ 0xDF) :
    continuation lead = (1, 0x80, 0xBF) := by
  rw [continuation, if_pos]
  simpa only [UInt8.le_iff_toNat_le, UInt8.toNat_ofNat] using h

/-- What two continuation bytes follow; the first one is not of a shorter sequence or of a
surrogate. -/
theorem exists_continuation_two (h : 0xE0 ≤ lead.toNat ∧ lead.toNat ≤ 0xEF)
    (hb : 0x80 ≤ b.toNat ∧ b.toNat ≤ 0xBF) (hfirst : lead.toNat = 0xE0 → 0xA0 ≤ b.toNat)
    (hsurrogate : lead.toNat = 0xED → b.toNat ≤ 0x9F) :
    ∃ lo hi, continuation lead = (2, lo, hi) ∧ lo ≤ b ∧ b ≤ hi := by
  simp only [continuation, UInt8.le_iff_toNat_le, ← UInt8.toNat_inj, UInt8.toNat_ofNat]
  split_ifs with h₁ h₂ h₃ h₄
  · omega
  · exact ⟨0xA0, 0xBF, rfl, hfirst h₂, hb.2⟩
  · exact ⟨0x80, 0x9F, rfl, hb.1, hsurrogate h₃⟩
  · exact ⟨0x80, 0xBF, rfl, hb⟩
  all_goals omega

/-- What three continuation bytes follow; the first one is not of a shorter sequence or beyond the
last code point. -/
theorem exists_continuation_three (h : 0xF0 ≤ lead.toNat ∧ lead.toNat ≤ 0xF4)
    (hb : 0x80 ≤ b.toNat ∧ b.toNat ≤ 0xBF) (hfirst : lead.toNat = 0xF0 → 0x90 ≤ b.toNat)
    (hlast : lead.toNat = 0xF4 → b.toNat ≤ 0x8F) :
    ∃ lo hi, continuation lead = (3, lo, hi) ∧ lo ≤ b ∧ b ≤ hi := by
  simp only [continuation, UInt8.le_iff_toNat_le, ← UInt8.toNat_inj, UInt8.toNat_ofNat]
  split_ifs with h₁ h₂ h₃ h₄ h₅ h₆ h₇
  · omega
  · omega
  · omega
  · omega
  · exact ⟨0x90, 0xBF, rfl, hfirst h₅, hb.2⟩
  · exact ⟨0x80, 0xBF, rfl, hb⟩
  · exact ⟨0x80, 0x8F, rfl, hb.1, hlast h₇⟩
  · omega

/-! ### Bytes that are UTF-8 -/

/-- A byte below `0x80` stands for itself. -/
theorem lossyChars_ascii (h : lead < 0x80) (rest : Bytes) :
    lossyChars (lead :: rest) = Char.ofNat lead.toNat :: lossyChars rest := by
  rw [lossyChars, if_pos h]

/-- A leading byte is shown with the continuation bytes that it announces. -/
theorem lossyChars_lead {n : Nat} (h : 0x80 ≤ lead.toNat)
    (hlead : continuation lead = (n + 1, lo, hi))
    (htaken : continueFrom (leadBits lead) (n + 1) lo hi tail = (code, 0, rest)) :
    lossyChars (lead :: tail) = Char.ofNat code :: lossyChars rest := by
  have hmany : ¬ lead < 0x80 := by
    rw [UInt8.lt_iff_toNat_lt]
    exact Nat.not_lt.mpr h
  rw [lossyChars, if_neg hmany, hlead, if_neg (Nat.succ_ne_zero n)]
  dsimp only
  rw [htaken]
  rfl

/-- Two bytes that are a character. -/
theorem lossyChars_two (ha : 0xC2 ≤ lead.toNat ∧ lead.toNat ≤ 0xDF)
    (hb : 0x80 ≤ b.toNat ∧ b.toNat ≤ 0xBF) (rest : Bytes) :
    lossyChars (lead :: b :: rest) =
      Char.ofNat ((lead.toNat - 0xC0) * 64 + (b.toNat - 0x80)) :: lossyChars rest := by
  have hlead := continuation_one ha
  refine lossyChars_lead (by omega) hlead ?_
  rw [leadBits, hlead]
  exact continueFrom_tail _ 0 rest hb

/-- Three bytes that are a character. -/
theorem lossyChars_three {c : UInt8} (ha : 0xE0 ≤ lead.toNat ∧ lead.toNat ≤ 0xEF)
    (hb : 0x80 ≤ b.toNat ∧ b.toNat ≤ 0xBF) (hfirst : lead.toNat = 0xE0 → 0xA0 ≤ b.toNat)
    (hsurrogate : lead.toNat = 0xED → b.toNat ≤ 0x9F) (hc : 0x80 ≤ c.toNat ∧ c.toNat ≤ 0xBF)
    (rest : Bytes) :
    lossyChars (lead :: b :: c :: rest) =
      Char.ofNat (((lead.toNat - 0xE0) * 64 + (b.toNat - 0x80)) * 64 + (c.toNat - 0x80)) ::
        lossyChars rest := by
  obtain ⟨lo, hi, hlead, hbounds⟩ := exists_continuation_two ha hb hfirst hsurrogate
  refine lossyChars_lead (by omega) hlead ?_
  rw [leadBits, hlead]
  dsimp only
  rw [continueFrom_cons _ 1 _ hbounds]
  exact continueFrom_tail _ 0 rest hc

/-- Four bytes that are a character. -/
theorem lossyChars_four {c d : UInt8} (ha : 0xF0 ≤ lead.toNat ∧ lead.toNat ≤ 0xF4)
    (hb : 0x80 ≤ b.toNat ∧ b.toNat ≤ 0xBF) (hfirst : lead.toNat = 0xF0 → 0x90 ≤ b.toNat)
    (hlast : lead.toNat = 0xF4 → b.toNat ≤ 0x8F) (hc : 0x80 ≤ c.toNat ∧ c.toNat ≤ 0xBF)
    (hd : 0x80 ≤ d.toNat ∧ d.toNat ≤ 0xBF) (rest : Bytes) :
    lossyChars (lead :: b :: c :: d :: rest) =
      Char.ofNat ((((lead.toNat - 0xF0) * 64 + (b.toNat - 0x80)) * 64 + (c.toNat - 0x80)) * 64 +
        (d.toNat - 0x80)) :: lossyChars rest := by
  obtain ⟨lo, hi, hlead, hbounds⟩ := exists_continuation_three ha hb hfirst hlast
  refine lossyChars_lead (by omega) hlead ?_
  rw [leadBits, hlead]
  dsimp only
  rw [continueFrom_cons _ 2 _ hbounds, continueFrom_tail _ 1 _ hc]
  exact continueFrom_tail _ 0 rest hd

/-- The bytes of a character are shown as the character. -/
theorem lossyChars_utf8EncodeChar (c : Char) (rest : Bytes) :
    lossyChars (String.utf8EncodeChar c ++ rest) = c :: lossyChars rest := by
  have hvalid : c.val.toNat < 0xD800 ∨ 0xDFFF < c.val.toNat ∧ c.val.toNat < 0x110000 := c.valid
  have hself {n : Nat} (h : n = c.val.toNat) : Char.ofNat n = c := h ▸ Char.ofNat_toNat c
  have hbyte (n : Nat) (h : n < 256) : (UInt8.ofNat n).toNat = n := by
    rw [UInt8.toNat_ofNat']
    omega
  unfold String.utf8EncodeChar
  generalize c.val.toNat = v at *
  dsimp only
  split
  · next hone =>
      rw [List.singleton_append, lossyChars_ascii, hbyte v (by omega), hself rfl]
      rw [UInt8.lt_iff_toNat_lt, hbyte v (by omega)]
      exact Nat.lt_succ_of_le hone
  · split
    · next hmany htwo =>
        have hlead := hbyte (v / 64 % 32 + 192) (by omega)
        have hlast := hbyte (v % 64 + 128) (by omega)
        simp only [List.cons_append, List.nil_append]
        rw [lossyChars_two (by omega) (by omega), hself (by omega)]
    · have hlast := hbyte (v % 64 + 128) (by omega)
      have hbefore := hbyte (v / 64 % 64 + 128) (by omega)
      split
      · next htwo hthree =>
          have hlead := hbyte (v / 4096 % 16 + 224) (by omega)
          simp only [List.cons_append, List.nil_append]
          rw [lossyChars_three (by omega) (by omega) (by omega) (by omega) (by omega),
            hself (by omega)]
      · next hthree =>
          have hlead := hbyte (v / 262144 % 8 + 240) (by omega)
          have hsecond := hbyte (v / 4096 % 64 + 128) (by omega)
          simp only [List.cons_append, List.nil_append]
          rw [lossyChars_four (by omega) (by omega) (by omega) (by omega) (by omega) (by omega),
            hself (by omega)]

/-- **UTF-8.** The bytes of a text are shown as the text. -/
theorem lossyChars_ofString (s : String) : lossyChars (ofString s) = s.toList := by
  rw [ofString_eq_flatMap]
  induction s.toList with
  | nil => rw [List.flatMap_nil, lossyChars]
  | cons c cs ih => rw [List.flatMap_cons, lossyChars_utf8EncodeChar, ih]

/-- Bytes are shown character by character, whether or not they are UTF-8. -/
theorem toList_toLossyString (bs : Bytes) : (toLossyString bs).toList = lossyChars bs := by
  rw [toLossyString]
  split
  · next s hs =>
      rw [toString?, String.fromUTF8?] at hs
      split at hs
      · next hvalid =>
          obtain rfl := Option.some.inj hs
          rw [← lossyChars_ofString, ofString_eq]
          rfl
      · exact absurd hs (by simp)
  · rw [String.toList_ofList]

/-! ### Cutting bytes -/

/-- A byte that stands for itself is not taken as a continuation byte. -/
theorem continueFrom_append (code want : Nat) (bs : Bytes) (hlo : 0x80 ≤ lo) (hb : b < 0x80)
    (more : Bytes) :
    continueFrom code want lo hi (bs ++ b :: more) =
      ((continueFrom code want lo hi bs).1, (continueFrom code want lo hi bs).2.1,
        (continueFrom code want lo hi bs).2.2 ++ b :: more) := by
  induction want generalizing code lo hi bs with
  | zero => rfl
  | succ want ih =>
      cases bs with
      | nil =>
          have hnot : ¬ (lo ≤ b ∧ b ≤ hi) := fun h =>
            absurd (UInt8.lt_of_lt_of_le hb (UInt8.le_trans hlo h.1)) (UInt8.lt_irrefl b)
          exact if_neg hnot
      | cons d rest =>
          rw [List.cons_append, continueFrom, continueFrom]
          split
          · exact ih _ rest (UInt8.le_refl _)
          · rfl

/-- What is left after continuation bytes is the end of what there was. -/
theorem continueFrom_suffix (code want : Nat) (lo hi : UInt8) (bs : Bytes) :
    (continueFrom code want lo hi bs).2.2 <:+ bs := by
  induction want generalizing code lo hi bs with
  | zero => exact List.suffix_rfl
  | succ want ih =>
      cases bs with
      | nil => exact List.suffix_rfl
      | cons b rest =>
          rw [continueFrom]
          split
          · exact (ih _ _ _ rest).trans (List.suffix_cons b rest)
          · exact List.suffix_rfl

/-- The first continuation byte is none that stands for itself. -/
theorem le_continuation (lead : UInt8) : 0x80 ≤ (continuation lead).2.1 := by
  rw [continuation]
  split_ifs <;> decide

/-- **Cutting** bytes at one that stands for itself cuts what they show. -/
theorem lossyChars_append_cons (hb : b < 0x80) (bs more : Bytes) :
    lossyChars (bs ++ b :: more) = lossyChars bs ++ Char.ofNat b.toNat :: lossyChars more := by
  induction bs using lossyChars.induct with
  | case1 => rw [List.nil_append, lossyChars_ascii hb, lossyChars, List.nil_append]
  | case2 lead rest hlead ih =>
      rw [List.cons_append, lossyChars_ascii hlead, lossyChars_ascii hlead, ih, List.cons_append]
  | case3 lead rest hlead hnone ih =>
      rw [List.cons_append, lossyChars, lossyChars, if_neg hlead, if_neg hlead, if_pos hnone,
        if_pos hnone, ih, List.cons_append]
  | case4 lead rest hlead hsome taken ih =>
      rw [List.cons_append, lossyChars, lossyChars, if_neg hlead, if_neg hlead, if_neg hsome,
        if_neg hsome]
      dsimp only
      rw [continueFrom_append _ _ _ (le_continuation lead) hb]
      dsimp only
      rw [ih, List.cons_append]

/-! ### Lines -/

/-- Continuation bytes add to a code point. -/
theorem le_continueFrom (code want : Nat) (bs : Bytes)
    (hall : (continueFrom code want lo hi bs).2.1 = 0) :
    code ≤ (continueFrom code want lo hi bs).1 := by
  induction want generalizing code lo hi bs with
  | zero => exact Nat.le_refl code
  | succ want ih =>
      cases bs with
      | nil => exact absurd hall (Nat.succ_ne_zero want)
      | cons b rest =>
          rw [continueFrom] at hall ⊢
          split at hall
          · next hb =>
              rw [if_pos hb]
              have hrest := ih _ rest hall
              omega
          · exact absurd hall (Nat.succ_ne_zero want)

/-- Bytes of a longer sequence never spell a character that one byte stands for: where the bits of
the leading byte are all zero, those of the next one are not. -/
theorem sixteen_le_continueFrom (bs : Bytes) (hlead : (continuation lead).1 ≠ 0)
    (hall : (continueFrom (leadBits lead) (continuation lead).1 (continuation lead).2.1
      (continuation lead).2.2 bs).2.1 = 0) :
    16 ≤ (continueFrom (leadBits lead) (continuation lead).1 (continuation lead).2.1
      (continuation lead).2.2 bs).1 := by
  have hbits : 16 ≤ leadBits lead * 64 + ((continuation lead).2.1.toNat - 0x80) := by
    revert hlead
    rw [leadBits]
    simp only [continuation, UInt8.le_iff_toNat_le, ← UInt8.toNat_inj, UInt8.toNat_ofNat]
    split_ifs <;> simp <;> omega
  obtain ⟨want, hwant⟩ := Nat.exists_eq_succ_of_ne_zero hlead
  rw [hwant] at hall ⊢
  cases bs with
  | nil => exact absurd hall (Nat.succ_ne_zero want)
  | cons b rest =>
      rw [continueFrom] at hall ⊢
      split at hall
      · next hb =>
          rw [if_pos hb]
          have hle := le_continueFrom _ want rest hall
          have hlo := UInt8.le_iff_toNat_le.mp hb.1
          omega
      · exact absurd hall (Nat.succ_ne_zero want)

/-- A text has a line end only where the bytes have one. -/
theorem newline_mem_of_mem_lossyChars {bs : Bytes} (h : '\n' ∈ lossyChars bs) : 0x0A ∈ bs := by
  have hcode {n : Nat} (hn : '\n' = Char.ofNat n) : n = 0x0A := by
    have hnat : (Char.ofNat n).toNat = 0x0A := (congrArg Char.toNat hn).symm
    by_cases hvalid : n.isValidChar
    · rw [Char.ofNat, dif_pos hvalid] at hnat
      exact hnat
    · rw [Char.ofNat, dif_neg hvalid] at hnat
      exact absurd hnat (by decide)
  induction bs using lossyChars.induct with
  | case1 => rw [lossyChars] at h; exact absurd h List.not_mem_nil
  | case2 lead rest hlead ih =>
      rw [lossyChars_ascii hlead] at h
      rcases List.mem_cons.mp h with h | h
      · exact List.mem_cons.mpr (.inl (UInt8.toNat_inj.mp (hcode h).symm))
      · exact List.mem_cons_of_mem lead (ih h)
  | case3 lead rest hlead hnone ih =>
      rw [lossyChars, if_neg hlead, if_pos hnone] at h
      rcases List.mem_cons.mp h with h | h
      · exact absurd h (by decide)
      · exact List.mem_cons_of_mem lead (ih h)
  | case4 lead rest hlead hsome taken ih =>
      rw [lossyChars, if_neg hlead, if_neg hsome] at h
      rcases List.mem_cons.mp h with h | h
      · split at h
        · next hall =>
            have hle := sixteen_le_continueFrom rest hsome hall
            exact absurd (hcode h) (by omega)
        · exact absurd h (by decide)
      · exact List.mem_cons_of_mem lead ((continueFrom_suffix _ _ _ _ rest).subset (ih h))

/-- **Lines.** Bytes and the text that they show have the same lines. -/
theorem splitOn_lossyChars (bs : Bytes) :
    (lossyChars bs).splitOn '\n' = (bs.splitOn 0x0A).map lossyChars := by
  by_cases h : 0x0A ∈ bs
  · obtain ⟨line, rest, hbs, hline⟩ := List.eq_append_cons_of_mem h
    have hchars : '\n' ∉ lossyChars line := fun h => hline (newline_mem_of_mem_lossyChars h)
    have hcut : lossyChars (line ++ 0x0A :: rest) = lossyChars line ++ '\n' :: lossyChars rest :=
      lossyChars_append_cons (by decide) line rest
    rw [hbs, hcut, List.splitOn_append_cons_self_of_not_mem hchars, splitOn_lossyChars rest,
      List.splitOn_append_cons_self_of_not_mem hline, List.map_cons]
  · have hchars : '\n' ∉ lossyChars bs := fun hmem => h (newline_mem_of_mem_lossyChars hmem)
    rw [List.splitOn_eq_singleton hchars, List.splitOn_eq_singleton h, List.map_singleton]
termination_by bs.length
decreasing_by
  rw [hbs, List.length_append, List.length_cons]
  omega

end IncrementalBuild.Bytes
