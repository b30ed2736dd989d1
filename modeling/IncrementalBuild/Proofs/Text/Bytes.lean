import IncrementalBuild.Text.Bytes
/-!
# The bytes of a text

A text can be told from its bytes, and some bytes stand in no text: none is `0xFF`, and the first
one is never a continuation byte.

## Main results

* `Bytes.toString?_ofString` — the bytes of a text spell it.
* `Bytes.ne_filler_of_mem_ofString`, `Bytes.headD_ofString_append` — what stands in no text.
-/

namespace IncrementalBuild.Bytes

/-- The bytes of a text spell it. -/
theorem toString?_ofString (s : String) : toString? (ofString s) = some s := by
  rw [toString?, ofString_eq, Array.toArray_toList, String.fromUTF8?]
  exact dif_pos s.isValidUTF8

/-- The bytes of a text are those of its characters. -/
theorem ofString_eq_flatMap (s : String) : ofString s = s.toList.flatMap String.utf8EncodeChar := by
  rw [ofString_eq, ← String.utf8Encode_toList, List.utf8Encode]
  simp

/-- No byte of a character is larger than `0xF7`. -/
theorem toNat_lt_of_mem_utf8EncodeChar {c : Char} {b : UInt8}
    (h : b ∈ String.utf8EncodeChar c) : b.toNat < 248 := by
  unfold String.utf8EncodeChar at h
  dsimp only at h
  split at h
  · simp only [List.mem_singleton] at h
    subst h
    simp only [UInt8.toNat_ofNat']
    omega
  · split at h
    · simp only [List.mem_cons, List.not_mem_nil, or_false] at h
      rcases h with rfl | rfl <;> simp only [UInt8.toNat_ofNat'] <;> omega
    · split at h
      · simp only [List.mem_cons, List.not_mem_nil, or_false] at h
        rcases h with rfl | rfl | rfl <;> simp only [UInt8.toNat_ofNat'] <;> omega
      · simp only [List.mem_cons, List.not_mem_nil, or_false] at h
        rcases h with rfl | rfl | rfl | rfl <;> simp only [UInt8.toNat_ofNat'] <;> omega

/-- No byte of a text is `0xFF`. -/
theorem ne_filler_of_mem_ofString {s : String} {b : UInt8} (h : b ∈ ofString s) : b ≠ 0xFF := by
  rw [ofString_eq_flatMap, List.mem_flatMap] at h
  obtain ⟨c, -, hb⟩ := h
  have hlt := toNat_lt_of_mem_utf8EncodeChar hb
  rintro rfl
  exact absurd hlt (by decide)

/-- The first byte of a character is no continuation byte. -/
theorem headD_utf8EncodeChar (c : Char) (rest : Bytes) (d : UInt8) :
    ((String.utf8EncodeChar c ++ rest).headD d).toNat / 64 ≠ 2 := by
  unfold String.utf8EncodeChar
  dsimp only
  split
  · simp only [List.cons_append, List.headD_cons, UInt8.toNat_ofNat']
    omega
  · split
    · simp only [List.cons_append, List.headD_cons, UInt8.toNat_ofNat']
      omega
    · split <;> simp only [List.cons_append, List.headD_cons, UInt8.toNat_ofNat'] <;> omega

/-- The first byte of a text is no continuation byte. -/
theorem headD_ofString_append {s : String} (h : s ≠ "") (rest : Bytes) (d : UInt8) :
    ((ofString s ++ rest).headD d).toNat / 64 ≠ 2 := by
  rw [ofString_eq_flatMap]
  cases hs : s.toList with
  | nil => exact absurd (String.toList_eq_nil_iff.mp hs) h
  | cons c cs =>
    rw [List.flatMap_cons, List.append_assoc]
    exact headD_utf8EncodeChar c _ d

end IncrementalBuild.Bytes
