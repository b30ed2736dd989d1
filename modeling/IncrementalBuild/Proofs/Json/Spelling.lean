import IncrementalBuild.Json.Value
import Mathlib.Computability.Language
/-!
# The ways to write a JSON value

The encoder writes one text for a value. Others may write the same value in another way: with
blanks between the tokens, with other escapes in the strings, with the fields of a record in
another order or without their names, with members that the record does not have. The texts that
stand for a value form a language, and this module defines these languages from the grammar of
the format, without a look at the decoders.

## Main definitions

* `Json.Spelling.blanks`, `Json.Spelling.whole` — what may stand between tokens, and around a value.
* `Json.Spelling.character`, `Json.Spelling.text` — the ways to write a character and a string.
* `Json.Spelling.scalar` — the values that are neither lists nor objects.
* `Json.Spelling.list`, `Json.Spelling.choice` — lists, and names of one of several values.
* `Json.Spelling.Part`, `Json.Spelling.record` — records, as objects and as lists of their fields.

## Main results

* `Json.Spelling.quote_mem`, `Json.Spelling.list_mem`, `Json.Spelling.record_mem` — what the encoder
  writes is among the ways to write it.
-/

namespace IncrementalBuild.Json.Spelling

open scoped Computability

/-! ### Characters and blanks -/

/-- The texts of one of some characters. -/
def oneOf (cs : List Char) : Language Char := {x | ∃ c ∈ cs, x = [c]}

/-- The text of one character. -/
def mark (c : Char) : Language Char := oneOf [c]

/-- The text of a word of the format. -/
def word (s : String) : Language Char := {Json.word s}

/-- The characters that may stand between two tokens. -/
def blankCharacters : List Char := [' ', '\n', '\t', '\r']

/-- What may stand between two tokens. -/
def blanks : Language Char := (oneOf blankCharacters)∗

/-- A value with blanks around it. -/
def whole (l : Language Char) : Language Char := blanks * l * blanks

theorem mem_mark {c : Char} {x : List Char} : x ∈ mark c ↔ x = [c] := by
  constructor
  · rintro ⟨d, hd, rfl⟩
    rw [List.mem_singleton.mp hd]
  · rintro rfl
    exact ⟨c, List.mem_singleton_self c, rfl⟩

theorem nil_mem_blanks : [] ∈ blanks := Language.nil_mem_kstar _

theorem mem_of_blanks {b : List Char} (hb : b ∈ blanks) : ∀ c ∈ b, c ∈ blankCharacters := by
  obtain ⟨bs, rfl, hbs⟩ := Language.mem_kstar.mp hb
  intro c hc
  obtain ⟨one, hone, hmem⟩ := List.mem_flatten.mp hc
  obtain ⟨d, hd, rfl⟩ := hbs one hone
  rwa [List.mem_singleton.mp hmem]

/-- A value without blanks around it. -/
theorem mem_whole {l : Language Char} {x : List Char} (h : x ∈ l) : x ∈ whole l := by
  have hfront : [] ++ x ∈ blanks * l := Language.append_mem_mul nil_mem_blanks h
  have hwhole : [] ++ x ++ [] ∈ whole l := Language.append_mem_mul hfront nil_mem_blanks
  rwa [List.nil_append, List.append_nil] at hwhole

/-! ### Strings -/

/-- The characters that have an escape of one letter, with that letter. -/
def letters : List (Char × Char) :=
  [('"', '"'), ('\\', '\\'), ('/', '/'), ('\x08', 'b'), ('\x0c', 'f'), ('\n', 'n'), ('\r', 'r'),
    ('\t', 't')]

/-- The hexadecimal digits with small letters. -/
def smallDigits : List Char :=
  ['0', '1', '2', '3', '4', '5', '6', '7', '8', '9', 'a', 'b', 'c', 'd', 'e', 'f']

/-- The hexadecimal digits with capital letters. -/
def capitalDigits : List Char :=
  ['0', '1', '2', '3', '4', '5', '6', '7', '8', '9', 'A', 'B', 'C', 'D', 'E', 'F']

/-- The hexadecimal digits of a value below 16. -/
def hexDigit (n : Nat) : Language Char :=
  oneOf (smallDigits[n]?.toList ++ capitalDigits[n]?.toList)

/-- The escape with four digits of a code below 65536. -/
def code (n : Nat) : Language Char :=
  mark '\\' * mark 'u' * hexDigit (n / 4096 % 16) * hexDigit (n / 256 % 16) *
    hexDigit (n / 16 % 16) * hexDigit (n % 16)

theorem mem_code {n : Nat} {x : List Char} :
    x ∈ code n ↔ ∃ a b c d, [a] ∈ hexDigit (n / 4096 % 16) ∧ [b] ∈ hexDigit (n / 256 % 16) ∧
      [c] ∈ hexDigit (n / 16 % 16) ∧ [d] ∈ hexDigit (n % 16) ∧ x = ['\\', 'u', a, b, c, d] := by
  simp only [code, mul_assoc, Language.mem_mul, mem_mark]
  constructor
  · rintro ⟨_, rfl, _, ⟨_, rfl, _, ⟨_, ⟨a, ha, rfl⟩, _, ⟨_, ⟨b, hb, rfl⟩, _, ⟨_, ⟨c, hc, rfl⟩, _,
      ⟨d, hd, rfl⟩, rfl⟩, rfl⟩, rfl⟩, rfl⟩, rfl⟩
    exact ⟨a, b, c, d, ⟨a, ha, rfl⟩, ⟨b, hb, rfl⟩, ⟨c, hc, rfl⟩, ⟨d, hd, rfl⟩, rfl⟩
  · rintro ⟨a, b, c, d, ha, hb, hc, hd, rfl⟩
    exact ⟨_, rfl, _, ⟨_, rfl, _, ⟨_, ha, _, ⟨_, hb, _, ⟨_, hc, _, hd, rfl⟩, rfl⟩, rfl⟩, rfl⟩, rfl⟩

/-- The codes that a character is escaped with: its own, or two halves if it is beyond the basic
plane. -/
def codes (c : Char) : List Nat :=
  if c.toNat < 0x10000 then [c.toNat]
  else [0xD800 + (c.toNat - 0x10000) / 0x400, 0xDC00 + (c.toNat - 0x10000) % 0x400]

/-- Whether a character may stand for itself in a string. -/
def IsPlain (c : Char) : Prop := c ≠ '"' ∧ c ≠ '\\' ∧ 0x20 ≤ c.toNat

/-- A character as it is. -/
def plain (c : Char) : Language Char := {x | IsPlain c ∧ x = [c]}

/-- The escapes of a character with a letter. -/
def lettered (c : Char) : Language Char := {x | ∃ l, (c, l) ∈ letters ∧ x = ['\\', l]}

/-- The ways to write a character in a string. -/
def character (c : Char) : Language Char := plain c + lettered c + ((codes c).map code).prod

/-- What stands in a string, with its quotes. -/
def quoted (body : Language Char) : Language Char := mark '"' * body * mark '"'

theorem mem_quoted {body : Language Char} {x : List Char} :
    x ∈ quoted body ↔ ∃ y ∈ body, x = '"' :: y ++ ['"'] := by
  simp only [quoted, mul_assoc, Language.mem_mul, mem_mark]
  constructor
  · rintro ⟨_, rfl, _, ⟨y, hy, _, rfl, rfl⟩, rfl⟩
    exact ⟨y, hy, rfl⟩
  · rintro ⟨y, hy, rfl⟩
    exact ⟨_, rfl, _, ⟨y, hy, _, rfl, rfl⟩, rfl⟩

/-- The ways to write a text as a string. -/
def text (s : String) : Language Char := quoted (s.toList.map character).prod

/-! ### Scalars -/

/-- A digit. -/
def digit : Language Char := oneOf ['0', '1', '2', '3', '4', '5', '6', '7', '8', '9']

/-- Digits of which there is at least one. -/
def digits : Language Char := digit * digit∗

/-- What stands before the point of a number: a zero, or digits that start with another one. -/
def integer : Language Char :=
  mark '0' + oneOf ['1', '2', '3', '4', '5', '6', '7', '8', '9'] * digit∗

/-- A point and the digits after it, if there is one. -/
def fraction : Language Char := 1 + mark '.' * digits

/-- An exponent with or without a sign, if there is one. -/
def exponent : Language Char := 1 + oneOf ['e', 'E'] * (1 + oneOf ['+', '-']) * digits

/-- The numbers. -/
def number : Language Char := (1 + mark '-') * integer * fraction * exponent

/-- A part of a string: a character, or a code that need not be one of a character. -/
def piece : Language Char := {x | (∃ c, x ∈ character c) ∨ ∃ n < 0x10000, x ∈ code n}

/-- The values that are neither lists nor objects. -/
def scalar : Language Char :=
  word "null" + word "true" + word "false" + number + quoted piece∗

/-! ### Lists and objects -/

/-- What follows the first item of a list: a comma and the next item, or the end. -/
def continued : List (Language Char) → Language Char
  | [] => blanks
  | l :: ls => blanks * mark ',' * blanks * l * continued ls

/-- Items with commas between them. -/
def separated : List (Language Char) → Language Char
  | [] => 1
  | l :: ls => l * continued ls

/-- Items between two brackets. -/
def bracketed (opening closing : Char) (ls : List (Language Char)) : Language Char :=
  mark opening * blanks * separated ls * mark closing

theorem mem_continued_cons {l : Language Char} {ls : List (Language Char)} {x : List Char} :
    x ∈ continued (l :: ls) ↔ ∃ b ∈ blanks, ∃ b' ∈ blanks, ∃ y ∈ l, ∃ z ∈ continued ls,
      x = b ++ ',' :: (b' ++ (y ++ z)) := by
  simp only [continued, mul_assoc, Language.mem_mul, mem_mark]
  constructor
  · rintro ⟨b, hb, _, ⟨_, rfl, _, ⟨b', hb', _, ⟨y, hy, z, hz, rfl⟩, rfl⟩, rfl⟩, rfl⟩
    exact ⟨b, hb, b', hb', y, hy, z, hz, rfl⟩
  · rintro ⟨b, hb, b', hb', y, hy, z, hz, rfl⟩
    exact ⟨b, hb, _, ⟨_, rfl, _, ⟨b', hb', _, ⟨y, hy, z, hz, rfl⟩, rfl⟩, rfl⟩, rfl⟩

theorem mem_bracketed {opening closing : Char} {ls : List (Language Char)} {x : List Char} :
    x ∈ bracketed opening closing ls ↔
      ∃ b ∈ blanks, ∃ y ∈ separated ls, x = opening :: (b ++ (y ++ [closing])) := by
  simp only [bracketed, mul_assoc, Language.mem_mul, mem_mark]
  constructor
  · rintro ⟨_, rfl, _, ⟨b, hb, _, ⟨y, hy, _, rfl, rfl⟩, rfl⟩, rfl⟩
    exact ⟨b, hb, y, hy, rfl⟩
  · rintro ⟨b, hb, y, hy, rfl⟩
    exact ⟨_, rfl, _, ⟨b, hb, _, ⟨y, hy, _, rfl, rfl⟩, rfl⟩, rfl⟩

/-- Where only one item stands between two brackets. -/
theorem mem_bracketed_singleton {opening closing : Char} {l : Language Char} {x : List Char}
    (hx : x ∈ bracketed opening closing [l]) :
    ∃ b ∈ blanks, ∃ y ∈ l, ∃ e ∈ blanks, x = opening :: (b ++ (y ++ (e ++ [closing]))) := by
  obtain ⟨b, hb, z, hz, rfl⟩ := mem_bracketed.mp hx
  obtain ⟨y, hy, e, he, rfl⟩ := Language.mem_mul.mp hz
  exact ⟨b, hb, y, hy, e, he, by rw [List.append_assoc]⟩

/-- A list of values. -/
def list (ls : List (Language Char)) : Language Char := bracketed '[' ']' ls

/-- An object with members. -/
def object (ms : List (Language Char)) : Language Char := bracketed '\x7b' '\x7d' ms

/-- A member of an object. -/
def member (name : String) (value : Language Char) : Language Char :=
  text name * blanks * mark ':' * blanks * value

theorem mem_member {name : String} {value : Language Char} {x : List Char} :
    x ∈ member name value ↔ ∃ n ∈ text name, ∃ b ∈ blanks, ∃ b' ∈ blanks, ∃ v ∈ value,
      x = n ++ (b ++ ':' :: (b' ++ v)) := by
  simp only [member, mul_assoc, Language.mem_mul, mem_mark]
  constructor
  · rintro ⟨n, hn, _, ⟨b, hb, _, ⟨_, rfl, _, ⟨b', hb', v, hv, rfl⟩, rfl⟩, rfl⟩, rfl⟩
    exact ⟨n, hn, b, hb, b', hb', v, hv, rfl⟩
  · rintro ⟨n, hn, b, hb, b', hb', v, hv, rfl⟩
    exact ⟨n, hn, _, ⟨b, hb, _, ⟨_, rfl, _, ⟨b', hb', v, hv, rfl⟩, rfl⟩, rfl⟩, rfl⟩

/-- A truth value. -/
def bool (b : Bool) : Language Char := word (toString b)

/-- A list of texts. -/
def texts (items : List String) : Language Char := list (items.map text)

/-- The name of one of several values: as a string, or as the member of an object that holds
nothing. -/
def choice (name : String) : Language Char := text name + object [member name (word "null")]

/-! ### Records -/

/-- A field of a record: its name, the ways to write its value, and whether it may be left out. -/
structure Part where
  name : String
  value : Language Char
  optional : Prop

/-- A part as a member of an object. -/
def Part.member (p : Part) : Language Char := Spelling.member p.name p.value

/-- A member that a record does not have: its value is a scalar. -/
def foreign (name : String) : Language Char := member name scalar

/-- A record as an object: the parts that are kept and foreign members, in any order. -/
def named (parts : List Part) : Language Char :=
  {x | ∃ (kept left : List Part) (names : List String) (members : List (Language Char)),
    parts.Perm (kept ++ left) ∧ (∀ p ∈ left, p.optional) ∧
    (∀ n ∈ names, n ∉ parts.map Part.name) ∧
    members.Perm (kept.map Part.member ++ names.map foreign) ∧ x ∈ object members}

/-- A record as the list of its parts in their order; it may end before parts that are optional. -/
def inOrder (parts : List Part) : Language Char :=
  {x | ∃ kept left, parts = kept ++ left ∧ (∀ p ∈ left, p.optional) ∧
    x ∈ list (kept.map Part.value)}

/-- The ways to write a record. -/
def record (parts : List Part) : Language Char := named parts + inOrder parts

/-! ### What the encoder writes -/

theorem hexDigit_mem {n : Nat} (h : n < 16) : [Bytes.hexDigit n] ∈ hexDigit n := by
  have hall : ∀ n < 16, Bytes.hexDigit n ∈ smallDigits[n]?.toList ++ capitalDigits[n]?.toList := by
    decide
  exact ⟨_, hall n h, rfl⟩

/-- The escape that is written for a code. -/
theorem hexQuad_mem (n : Nat) : '\\' :: 'u' :: hexQuad n ∈ code n := by
  have hdigit (k : Nat) := hexDigit_mem (Nat.mod_lt k (by decide : 0 < 16))
  exact mem_code.mpr
    ⟨_, _, _, _, hdigit (n / 4096), hdigit (n / 256), hdigit (n / 16), hdigit n, rfl⟩

/-- A character with the letter that it is written with. -/
theorem letter_mem {c l : Char} (h : (c, l) ∈ letters) : ['\\', l] ∈ character c :=
  Or.inl (Or.inr ⟨l, h, rfl⟩)

/-- A character is written in one of its ways. -/
theorem escape_mem (c : Char) : escape c ∈ character c := by
  rw [escape]
  split
  case isTrue h => exact letter_mem (by subst h; decide)
  split
  case isTrue h => exact letter_mem (by subst h; decide)
  split
  case isTrue h => exact letter_mem (by subst h; decide)
  split
  case isTrue h => exact letter_mem (by subst h; decide)
  split
  case isTrue h => exact letter_mem (by subst h; decide)
  split
  case isTrue h => exact letter_mem (by subst h; decide)
  split
  case isTrue h => exact letter_mem (by subst h; decide)
  split
  case isTrue hcontrol =>
    have hcodes : codes c = [c.toNat] := if_pos (by omega)
    have hcode : '\\' :: 'u' :: hexQuad c.toNat ∈ ((codes c).map code).prod := by
      rw [hcodes, List.map_cons, List.map_nil, List.prod_singleton]
      exact hexQuad_mem c.toNat
    exact Or.inr hcode
  case isFalse hquote hslash _ _ _ _ _ hprint =>
    exact Or.inl (Or.inl ⟨⟨hquote, hslash, Nat.not_lt.mp hprint⟩, rfl⟩)

/-- A text is written in one of its ways. -/
theorem quote_mem (s : String) : quote s.toList ∈ text s := by
  have hbody (cs : List Char) : cs.flatMap escape ∈ (cs.map character).prod := by
    induction cs with
    | nil => exact Language.nil_mem_one
    | cons c cs ih =>
      rw [List.flatMap_cons, List.map_cons, List.prod_cons]
      exact Language.append_mem_mul (escape_mem c) ih
  exact mem_quoted.mpr ⟨_, hbody s.toList, rfl⟩

/-- An item before the others, without blanks. -/
theorem separated_mem {l m : Language Char} {ls : List (Language Char)} {x y : List Char}
    (hx : x ∈ l) (hy : y ∈ separated (m :: ls)) : x ++ ',' :: y ∈ separated (l :: m :: ls) := by
  obtain ⟨next, hnext, rest, hrest, rfl⟩ := Language.mem_mul.mp hy
  have hcontinued : ',' :: (next ++ rest) ∈ continued (m :: ls) :=
    mem_continued_cons.mpr
      ⟨[], nil_mem_blanks, [], nil_mem_blanks, next, hnext, rest, hrest, rfl⟩
  exact Language.append_mem_mul hx hcontinued

/-- The items of a list are written in one of their ways. -/
theorem itemChars_mem {vs : List Value} {ls : List (Language Char)}
    (h : List.Forall₂ (fun v l => v.chars ∈ l) vs ls) : Value.itemChars vs ∈ separated ls := by
  induction h with
  | nil => exact Language.nil_mem_one
  | @cons v l vs ls hv hvs ih =>
    cases hvs with
    | nil =>
      have hlast : v.chars ++ [] ∈ separated [l] := Language.append_mem_mul hv nil_mem_blanks
      rwa [List.append_nil] at hlast
    | @cons w m ws ms hw hws =>
      rw [Value.itemChars]
      exact separated_mem hv ih

/-- **Lists.** A list is written in one of its ways. -/
theorem list_mem {vs : List Value} {ls : List (Language Char)}
    (h : List.Forall₂ (fun v l => v.chars ∈ l) vs ls) : (Value.list vs).chars ∈ list ls := by
  rw [Value.chars]
  exact mem_bracketed.mpr ⟨[], nil_mem_blanks, _, itemChars_mem h, rfl⟩

/-- A list of texts is written in one of its ways. -/
theorem texts_mem (items : List String) : (Value.texts items).chars ∈ texts items := by
  refine list_mem ?_
  rw [List.forall₂_map_left_iff, List.forall₂_map_right_iff, List.forall₂_same]
  intro s _
  rw [Value.chars]
  exact quote_mem s

/-- A member of an object, without blanks. -/
theorem member_mem {name : String} {l : Language Char} {x : List Char} (hx : x ∈ l) :
    quote name.toList ++ ':' :: x ∈ member name l :=
  mem_member.mpr
    ⟨_, quote_mem name, [], nil_mem_blanks, [], nil_mem_blanks, x, hx, rfl⟩

/-- The members of an object are written in one of their ways. -/
theorem memberChars_mem {ms : List (String × Value)} {parts : List Part}
    (h : List.Forall₂ (fun m p => m.1 = p.name ∧ m.2.chars ∈ p.value) ms parts) :
    Value.memberChars ms ∈ separated (parts.map Part.member) := by
  induction h with
  | nil => exact Language.nil_mem_one
  | @cons m p ms parts hm hms ih =>
    obtain ⟨hname, hvalue⟩ := hm
    have hmember : quote m.1.toList ++ ':' :: m.2.chars ∈ p.member := by
      rw [hname]
      exact member_mem hvalue
    cases hms with
    | nil =>
      have hlast := Language.append_mem_mul hmember nil_mem_blanks
      rw [List.append_nil] at hlast
      rw [Value.memberChars]
      exact hlast
    | cons hm' hms =>
      rw [Value.memberChars]
      exact separated_mem hmember ih

/-- An object is written in one of its ways. -/
theorem object_mem {ms : List (String × Value)} {parts : List Part}
    (h : List.Forall₂ (fun m p => m.1 = p.name ∧ m.2.chars ∈ p.value) ms parts) :
    (Value.object ms).chars ∈ object (parts.map Part.member) := by
  rw [Value.chars]
  exact mem_bracketed.mpr ⟨[], nil_mem_blanks, _, memberChars_mem h, rfl⟩

/-- **Records.** A record is written in one of its ways. -/
theorem record_mem {ms : List (String × Value)} {parts : List Part}
    (h : List.Forall₂ (fun m p => m.1 = p.name ∧ m.2.chars ∈ p.value) ms parts) :
    (Value.object ms).chars ∈ record parts := by
  refine Or.inl ⟨parts, [], [], parts.map Part.member, ?_, ?_, ?_, ?_, object_mem h⟩
  · rw [List.append_nil]
  · exact fun p hp => absurd hp List.not_mem_nil
  · exact fun n hn => absurd hn List.not_mem_nil
  · rw [List.map_nil, List.append_nil]

end IncrementalBuild.Json.Spelling
