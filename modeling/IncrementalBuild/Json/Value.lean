import IncrementalBuild.Text.Bytes
/-!
# JSON values and their compact text

## Main definitions

* `Json.Value` — the values that messages and settings are written as.
* `Json.Value.render` — the text of a value: no blanks, members in the order they are listed in,
  and in a string only the quote, the backslash and control characters escaped.
-/

namespace IncrementalBuild.Json

/-- A JSON value without fractions; the library writes no others. -/
inductive Value
  | null
  | bool (b : Bool)
  | number (n : Nat)
  | text (s : String)
  | list (items : List Value)
  | object (members : List (String × Value))
  deriving Repr

/-- The four hexadecimal digits of a code below 65536. -/
def hexQuad (n : Nat) : List Char :=
  [n / 4096 % 16, n / 256 % 16, n / 16 % 16, n % 16].map Bytes.hexDigit

/-- A character as it stands in a string. -/
def escape (c : Char) : List Char :=
  if c = '"' then ['\\', '"']
  else if c = '\\' then ['\\', '\\']
  else if c = '\x08' then ['\\', 'b']
  else if c = '\x09' then ['\\', 't']
  else if c = '\x0a' then ['\\', 'n']
  else if c = '\x0c' then ['\\', 'f']
  else if c = '\x0d' then ['\\', 'r']
  else if c.toNat < 0x20 then '\\' :: 'u' :: hexQuad c.toNat
  else [c]

/-- A text as a string, with its quotes. -/
def quote (cs : List Char) : List Char := '"' :: cs.flatMap escape ++ ['"']

/-- A word of the format as characters. -/
def word (s : String) : List Char := s.toList

namespace Value

mutual

/-- The compact text of a value. -/
def chars : Value → List Char
  | .null => word "null"
  | .bool true => word "true"
  | .bool false => word "false"
  | .number n => word (toString n)
  | .text s => quote s.toList
  | .list items => '[' :: itemChars items ++ [']']
  | .object members => '\x7b' :: memberChars members ++ ['\x7d']

/-- The items of a list with commas between them. -/
def itemChars : List Value → List Char
  | [] => []
  | [v] => v.chars
  | v :: w :: rest => v.chars ++ ',' :: itemChars (w :: rest)

/-- The members of an object with commas between them. -/
def memberChars : List (String × Value) → List Char
  | [] => []
  | [(name, v)] => quote name.toList ++ ':' :: v.chars
  | (name, v) :: m :: rest => quote name.toList ++ ':' :: v.chars ++ ',' :: memberChars (m :: rest)

end

/-- The compact text of a value. -/
def render (v : Value) : String := String.ofList v.chars

/-- A list of texts. -/
def texts (items : List String) : Value := .list (items.map .text)

/-- A text that may be missing. -/
def text? : Option String → Value
  | some s => .text s
  | none => .null

end Value
end IncrementalBuild.Json
