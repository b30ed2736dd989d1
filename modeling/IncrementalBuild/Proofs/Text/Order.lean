import Mathlib.Data.List.Lex
import IncrementalBuild.Proofs.Text.Bytes
/-!
# The order of texts

Texts that are compared character by character, by code points, are ordered as their bytes are: the
leading byte of a longer form is larger, and forms of one length are digits to the base 64.

## Main results

* `Bytes.ofString_lt_iff` — the bytes of texts are in the order of their code points.
-/

namespace IncrementalBuild.Bytes

/-- The form of a character comes before that of a later one, whatever follows. -/
theorem utf8EncodeChar_append_lt {c d : Char} (h : c.toNat < d.toNat) (x y : Bytes) :
    String.utf8EncodeChar c ++ x < String.utf8EncodeChar d ++ y := by
  have hcd : c.val.toNat < d.val.toNat := h
  have hd : d.val.toNat < 0x110000 := by
    rcases d.valid with hv | hv <;> omega
  -- Digits are divided off one at a time, so that equal ones in front cancel.
  have hdigits : ∀ k, k / 4096 = k / 64 / 64 ∧ k / 262144 = k / 64 / 64 / 64 := by omega
  unfold String.utf8EncodeChar
  dsimp only
  generalize c.val.toNat = m at hcd ⊢
  generalize d.val.toNat = n at hcd hd ⊢
  simp only [hdigits]
  split_ifs <;>
    simp only [List.cons_append, List.nil_append, List.cons_lt_cons_iff, UInt8.lt_iff_toNat_lt,
      ← UInt8.toNat_inj, UInt8.toNat_ofNat'] <;>
    omega

/-- The forms of characters are in the order of the characters. -/
theorem flatMap_utf8EncodeChar_lt {cs ds : List Char}
    (h : cs.map Char.toNat < ds.map Char.toNat) :
    cs.flatMap String.utf8EncodeChar < ds.flatMap String.utf8EncodeChar := by
  induction cs generalizing ds with
  | nil =>
      cases ds with
      | nil => exact absurd h (List.lt_irrefl _)
      | cons d ds =>
          obtain ⟨b, rest, hb⟩ :=
            List.exists_cons_of_ne_nil (String.utf8EncodeChar_ne_nil (c := d))
          rw [List.flatMap_cons, hb]
          exact List.nil_lt_cons _ _
  | cons c cs ih =>
      cases ds with
      | nil => exact absurd h (List.not_lt_nil _)
      | cons d ds =>
          rw [List.map_cons, List.map_cons, List.cons_lt_cons_iff] at h
          rw [List.flatMap_cons, List.flatMap_cons]
          rcases h with hcd | ⟨hcd, h⟩
          · exact utf8EncodeChar_append_lt hcd _ _
          · rw [Char.toNat_inj.mp hcd]
            exact List.Lex.append_left _ (ih h) _

/-- **Order.** The bytes of texts are in the order of their code points. -/
theorem ofString_lt_iff {s t : String} :
    ofString s < ofString t ↔ s.toList.map Char.toNat < t.toList.map Char.toNat := by
  rw [ofString_eq_flatMap, ofString_eq_flatMap]
  refine ⟨fun h => ?_, flatMap_utf8EncodeChar_lt⟩
  rcases lt_trichotomy (s.toList.map Char.toNat) (t.toList.map Char.toNat) with hlt | heq | hgt
  · exact hlt
  · rw [List.map_injective_iff.mpr (fun _ _ => Char.toNat_inj.mp) heq] at h
    exact absurd h (List.lt_irrefl _)
  · exact absurd h (List.lt_asymm (flatMap_utf8EncodeChar_lt hgt))

end IncrementalBuild.Bytes
