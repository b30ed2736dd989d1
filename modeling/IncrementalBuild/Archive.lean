import IncrementalBuild.Text.Bytes
/-!
# Archives

The binary form of messages. A value has a head of fixed size; what does not fit into it lies out
of line, before it, and the head holds the way there. The head of the whole message comes last,
so it is found from the end.

## Main definitions

* `Archive.Layout` — how a value is written: its head, and what goes out of line.
* `Archive.text`, `Archive.texts`, `Archive.byte`, `Archive.gap`, `Archive.sequence` — layouts.
* `Archive.pack` — the bytes of a whole message.
* `Archive.Reader`, `Archive.Cursor`, `Archive.Region` — how a value is read back, how far the
  message has been read, and which bytes may still be referred to.
* `Archive.unpack` — reads a whole message.

## Which bytes may be referred to

Messages come from other processes, so every reference is checked. Out-of-line parts have to lie
in the order in which they are read, none overlapping another, the items of a list after
everything that the items refer to. Gaps and unused bytes are not looked at.
-/

namespace IncrementalBuild.Archive

/-! ### Words -/

/-- A number modulo 2 ^ 32 as four bytes, the lowest first. -/
def le32 (n : Nat) : Bytes :=
  [n, n / 256, n / 65536, n / 16777216].map fun x => UInt8.ofNat (x % 256)

/-- The number that four bytes stand for, the lowest first. -/
def ofLe32 : Bytes → Nat
  | [] => 0
  | b :: rest => b.toNat + 256 * ofLe32 rest

/-- The difference of two positions as a signed word. -/
def offset (source target : Nat) : Bytes := le32 (target + 4294967296 - source)

/-- A word taken as a signed number. -/
def signed (n : Nat) : Int := if n < 2147483648 then n else (n : Int) - 4294967296

/-! ### Writing -/

/-- How many bytes fill up a length to a multiple of four. -/
def fillSize (length : Nat) : Nat := (4 - length % 4) % 4

/-- The size of the head of a text or of a list. -/
def headSize : Nat := 8

/-- The longest text that fits into its head. -/
def inlineSize : Nat := 8

/-- The longest text that can be written. -/
def longestText : Nat := 1073741823

/-- How a value is written, wherever its out-of-line bytes and its head are placed. -/
structure Layout where
  /-- The size of the head. -/
  size : Nat
  /-- The size of the longest text in it. -/
  longest : Nat
  /-- How many bytes go out of line. -/
  extent : (start : Nat) → Nat
  /-- The out-of-line bytes. -/
  out : (start : Nat) → Bytes
  /-- The head of a value whose out-of-line bytes start at `start`. -/
  head : (start here : Nat) → Bytes
  longest_le : ∀ start, longest ≤ extent start + inlineSize
  length_out : ∀ start, (out start).length = extent start
  length_head : ∀ start here, (head start here).length = size

namespace Layout

/-- Where the head stands of a value that is written as a whole: after its out-of-line bytes, at a
multiple of four. -/
def place (l : Layout) (start : Nat) : Nat :=
  start + l.extent start + fillSize (start + l.extent start)

/-- A value written as a whole: its out-of-line bytes, then its head. -/
def whole (l : Layout) (start : Nat) : Bytes :=
  l.out start ++
    (List.replicate (fillSize (start + l.extent start)) 0 ++ l.head start (l.place start))

/-- The size of a value that is written as a whole. -/
def wholeSize (l : Layout) (start : Nat) : Nat :=
  l.extent start + (fillSize (start + l.extent start) + l.size)

theorem length_whole (l : Layout) (start : Nat) : (l.whole start).length = l.wholeSize start := by
  simp only [whole, wholeSize, List.length_append, List.length_replicate, l.length_out,
    l.length_head]

/-- Two values one after the other. -/
def pair (a b : Layout) : Layout where
  size := a.size + b.size
  longest := max a.longest b.longest
  extent start := a.extent start + b.extent (start + a.extent start)
  out start := a.out start ++ b.out (start + a.extent start)
  head start here := a.head start here ++ b.head (start + a.extent start) (here + a.size)
  longest_le start := by
    have ha := a.longest_le start
    have hb := b.longest_le (start + a.extent start)
    omega
  length_out start := by rw [List.length_append, a.length_out, b.length_out]
  length_head start here := by rw [List.length_append, a.length_head, b.length_head]

end Layout

/-- The length of an out-of-line text. Its lowest byte is marked, so that it differs from the
first byte of any text that lies in the head. -/
def packLength (n : Nat) : Nat := n % 64 + 128 + n / 64 * 256

/-- A text: in its head if it fits, filled up with a byte that no text holds. -/
def text (s : String) : Layout where
  size := headSize
  longest := s.utf8ByteSize
  extent _ := if s.utf8ByteSize ≤ inlineSize then 0 else s.utf8ByteSize
  out _ := if s.utf8ByteSize ≤ inlineSize then [] else Bytes.ofString s
  head start here :=
    if s.utf8ByteSize ≤ inlineSize then
      Bytes.ofString s ++ List.replicate (inlineSize - s.utf8ByteSize) 0xFF
    else le32 (packLength s.utf8ByteSize) ++ offset here start
  longest_le _ := by split <;> omega
  length_out _ := by
    split
    · rfl
    · exact Bytes.length_ofString s
  length_head start here := by
    split
    case isTrue h =>
      rw [List.length_append, List.length_replicate, Bytes.length_ofString]
      exact Nat.add_sub_cancel' h
    · rfl

/-- One byte. -/
def byte (b : UInt8) : Layout where
  size := 1
  longest := 0
  extent _ := 0
  out _ := []
  head _ _ := [b]
  longest_le _ := Nat.zero_le _
  length_out _ := rfl
  length_head _ _ := rfl

/-- Unused bytes. -/
def gap (n : Nat) : Layout where
  size := n
  longest := 0
  extent _ := 0
  out _ := []
  head _ _ := List.replicate n 0
  longest_le _ := Nat.zero_le _
  length_out _ := rfl
  length_head _ _ := List.length_replicate

/-- Several values one after the other. -/
def sequence (layouts : List Layout) : Layout := layouts.foldr Layout.pair (gap 0)

/-- The items of a list of texts. -/
def items (texts : List String) : Layout := sequence (texts.map text)

/-- A list of texts: its items lie out of line as a whole, after everything they refer to. -/
def texts (list : List String) : Layout where
  size := headSize
  longest := (items list).longest
  extent := (items list).wholeSize
  out := (items list).whole
  head start here := offset here ((items list).place start) ++ le32 list.length
  longest_le start := Nat.le_trans ((items list).longest_le start)
    (Nat.add_le_add_right (Nat.le_add_right _ _) _)
  length_out := (items list).length_whole
  length_head _ _ := rfl

/-- The bytes of a whole message. -/
def pack (layout : Layout) : Bytes := layout.whole 0

/-! ### Reading -/

/-- The bytes that out-of-line parts may still lie in. -/
structure Region where
  start : Nat
  stop : Nat
  deriving DecidableEq, Repr

/-- How far a message has been read. -/
structure Cursor where
  /-- The position of the next head. -/
  here : Nat
  /-- What may still be referred to. -/
  region : Region
  deriving DecidableEq, Repr

/-- Reads the value whose head is next, from the bytes of a message. -/
abbrev Reader := ReaderT Bytes (StateT Cursor Option)

/-- Some bytes of a message. -/
def slice (body : Bytes) (start size : Nat) : Bytes := (body.drop start).take size

/-- The word at a position. -/
def word (body : Bytes) (here : Nat) : Nat := ofLe32 (slice body here 4)

/-- Where a part of `size` bytes starts that is referred to from `here`, if it lies in the
region. -/
def target? (body : Bytes) (here field size : Nat) (r : Region) : Option Nat :=
  let position := (here : Int) + signed (word body field)
  if (r.start : Int) ≤ position ∧ position + size ≤ r.stop then some position.toNat else none

/-- The region after a part was read. -/
def Region.after (r : Region) (start size : Nat) : Region := ⟨start + size, r.stop⟩

/-- Goes on after a head of `size` bytes. -/
def Cursor.past (c : Cursor) (size : Nat) : Cursor := { c with here := c.here + size }

/-- Passes over unused bytes. -/
def skip (n : Nat) : Reader Unit := fun _ c => some ((), c.past n)

/-- Whether the head of a text holds the text itself. -/
def isInline (first : UInt8) : Bool := first.toNat / 64 != 2

/-- The length that the word of an out-of-line text stands for. -/
def unpackLength (n : Nat) : Nat := n % 64 + n / 256 * 64

/-- Reads a text. -/
def readText : Reader String := fun body c =>
  let head := slice body c.here headSize
  if isInline (head.headD 0) then
    (Bytes.toString? (head.takeWhile (· != 0xFF))).map fun s => (s, c.past headSize)
  else
    let size := unpackLength (word body c.here)
    if size ≤ inlineSize then none
    else do
      let start ← target? body c.here (c.here + 4) size c.region
      let s ← Bytes.toString? (slice body start size)
      return (s, ⟨c.here + headSize, c.region.after start size⟩)

/-- Reads values whose heads follow each other. -/
def readMany {α : Type} (reader : Reader α) : Nat → Reader (List α)
  | 0 => pure []
  | count + 1 => do
    let a ← reader
    let rest ← readMany reader count
    return a :: rest

/-- Reads a list of texts. -/
def readTexts : Reader (List String) := fun body c => do
  let count := word body (c.here + 4)
  let size := count * headSize
  let start ← target? body c.here c.here size c.region
  if start % 4 ≠ 0 then none
  let (items, _) ← readMany readText count body ⟨start, c.region.start, start⟩
  return (items, ⟨c.here + headSize, c.region.after start size⟩)

/-- Reads a byte that has to be one of the places in a list. -/
def readIndex {α : Type} (values : List α) : Reader α := fun body c =>
  ((slice body c.here 1).head?.bind fun b => values[b.toNat]?).map fun a => (a, c.past 1)

/-- Reads a truth value. -/
def readBool : Reader Bool := readIndex [false, true]

/-- Reads a whole message with a head of `size` bytes. -/
def unpack {α : Type} (size : Nat) (reader : Reader α) (body : Bytes) : Option α :=
  let here := body.length - size
  if body.length < size ∨ here % 4 ≠ 0 then none
  else (reader body ⟨here, 0, here⟩).map Prod.fst

end IncrementalBuild.Archive
