/-!
# Bytes and the text they spell

A file, a message and a compiler's output are bytes; the rest of the library speaks `String`.
This module goes between the two.

## Main definitions

* `Bytes.ofString` — the UTF-8 form of a text.
* `Bytes.toString?` — the text that bytes spell, `none` when they are not UTF-8.
* `Bytes.toLossyString` — every byte sequence as a text: what is not UTF-8 is shown as one
  replacement character per maximal ill-formed piece.
* `Bytes.ofHex?`, `Bytes.toHex` — two hexadecimal digits per byte.
-/

namespace IncrementalBuild

/-- A sequence of bytes. -/
abbrev Bytes := List UInt8

namespace Bytes

/-- The UTF-8 form of a text. -/
def ofString (s : String) : Bytes := s.toUTF8.toList

/-- The bytes of an array, from a position on and after those that were taken. -/
theorem toList_loop (bs : ByteArray) (i : Nat) (taken : Bytes) :
    ByteArray.toList.loop bs i taken = taken.reverse ++ bs.data.toList.drop i := by
  fun_induction ByteArray.toList.loop bs i taken with
  | case1 i taken h ih =>
    have hi : i < bs.data.toList.length := h
    rw [ih, List.reverse_cons, List.append_assoc, List.drop_eq_getElem_cons hi]
    simp [ByteArray.get!, getElem!_pos bs.data i h]
  | case2 i taken h =>
    rw [List.drop_eq_nil_of_le (Nat.not_lt.mp h : bs.data.toList.length ≤ i), List.append_nil]

/-- The form of a text is the list of the bytes that it is stored as. -/
theorem ofString_eq (s : String) : ofString s = s.toByteArray.data.toList := by
  rw [ofString, ByteArray.toList, toList_loop]
  rfl

/-- The form of a text is as long as the text is said to be. -/
theorem length_ofString (s : String) : (ofString s).length = s.utf8ByteSize := by
  rw [ofString_eq]
  rfl

/-- The text that bytes spell in UTF-8, if they do. -/
def toString? (bs : Bytes) : Option String := String.fromUTF8? ⟨bs.toArray⟩

/-! ### Text in spite of errors -/

/-- The character shown in place of bytes that are not UTF-8. -/
def replacement : Char := Char.ofNat 0xFFFD

/-- How many continuation bytes follow a leading byte, and the bounds of the first of them.
A byte that cannot lead a longer sequence has none. -/
def continuation (lead : UInt8) : Nat × UInt8 × UInt8 :=
  if 0xC2 ≤ lead ∧ lead ≤ 0xDF then (1, 0x80, 0xBF)
  else if lead = 0xE0 then (2, 0xA0, 0xBF)
  else if lead = 0xED then (2, 0x80, 0x9F)
  else if 0xE1 ≤ lead ∧ lead ≤ 0xEF then (2, 0x80, 0xBF)
  else if lead = 0xF0 then (3, 0x90, 0xBF)
  else if 0xF1 ≤ lead ∧ lead ≤ 0xF3 then (3, 0x80, 0xBF)
  else if lead = 0xF4 then (3, 0x80, 0x8F)
  else (0, 0x80, 0xBF)

/-- Takes up to `want` continuation bytes, the first between `lo` and `hi`, adding six bits for
each to `code`: the code reached, how many bytes were still missing, and the rest. -/
def continueFrom (code : Nat) : Nat → UInt8 → UInt8 → Bytes → Nat × Nat × Bytes
  | 0, _, _, rest => (code, 0, rest)
  | want + 1, _, _, [] => (code, want + 1, [])
  | want + 1, lo, hi, b :: rest =>
    if lo ≤ b ∧ b ≤ hi then
      continueFrom (code * 64 + (b.toNat - 0x80)) want 0x80 0xBF rest
    else (code, want + 1, b :: rest)

theorem length_continueFrom (code want : Nat) (lo hi : UInt8) (bs : Bytes) :
    (continueFrom code want lo hi bs).2.2.length ≤ bs.length := by
  induction want generalizing code lo hi bs with
  | zero => simp [continueFrom]
  | succ want ih =>
    cases bs with
    | nil => simp [continueFrom]
    | cons b rest =>
      unfold continueFrom
      split
      · exact Nat.le_trans (ih _ _ _ _) (Nat.le_succ _)
      · exact Nat.le_refl _

/-- The bits of a leading byte that belong to the code point. -/
def leadBits (lead : UInt8) : Nat :=
  match (continuation lead).1 with
  | 1 => lead.toNat - 0xC0
  | 2 => lead.toNat - 0xE0
  | _ => lead.toNat - 0xF0

/-- Characters of a byte sequence, with `replacement` for every maximal piece that is not
UTF-8. -/
def lossyChars : Bytes → List Char
  | [] => []
  | lead :: rest =>
    if lead < 0x80 then Char.ofNat lead.toNat :: lossyChars rest
    else if (continuation lead).1 = 0 then replacement :: lossyChars rest
    else
      let taken := continueFrom (leadBits lead) (continuation lead).1 (continuation lead).2.1
        (continuation lead).2.2 rest
      (if taken.2.1 = 0 then Char.ofNat taken.1 else replacement) :: lossyChars taken.2.2
termination_by bs => bs.length
decreasing_by
  · exact Nat.lt_succ_self _
  · exact Nat.lt_succ_self _
  · exact Nat.lt_succ_of_le (length_continueFrom _ _ _ _ _)

/-- A text for any byte sequence. -/
def toLossyString (bs : Bytes) : String :=
  match toString? bs with
  | some s => s
  | none => String.ofList (lossyChars bs)

/-! ### Hexadecimal -/

/-- The value of a hexadecimal digit. -/
def hexValue? (c : Char) : Option Nat :=
  if '0' ≤ c ∧ c ≤ '9' then some (c.toNat - '0'.toNat)
  else if 'a' ≤ c ∧ c ≤ 'f' then some (c.toNat - 'a'.toNat + 10)
  else if 'A' ≤ c ∧ c ≤ 'F' then some (c.toNat - 'A'.toNat + 10)
  else none

/-- Reads two digits per byte; `none` for an odd number of digits or another character. -/
def ofHexChars? : List Char → Option Bytes
  | [] => some []
  | [_] => none
  | a :: b :: rest => do
    let hi ← hexValue? a
    let lo ← hexValue? b
    let bytes ← ofHexChars? rest
    return UInt8.ofNat (hi * 16 + lo) :: bytes

/-- Reads two hexadecimal digits per byte. -/
def ofHex? (s : String) : Option Bytes := ofHexChars? s.toList

/-- The lower-case hexadecimal digit of a value below 16. -/
def hexDigit (n : Nat) : Char :=
  if n < 10 then Char.ofNat ('0'.toNat + n) else Char.ofNat ('a'.toNat + (n - 10))

/-- Writes two lower-case hexadecimal digits per byte. -/
def toHex (bs : Bytes) : String :=
  String.ofList (bs.flatMap fun b => [hexDigit (b.toNat / 16), hexDigit (b.toNat % 16)])

end Bytes
end IncrementalBuild
