import IncrementalBuild.Json.Message
import IncrementalBuild.Text.Decimal
/-!
# Hypertext requests and responses

The parts of the hypertext protocol that the loopback transport depends on: the path of an
address, percent escapes, and media types.

## Main definitions

* `Http.Request`, `Http.Response` — what a server is asked, and what it answers.
* `Http.pathOf` — the path of an address.
* `Http.percentDecode` — bytes written with percent escapes.
* `Http.isJson` — whether a content type says that a body is JSON.
-/

namespace IncrementalBuild.Http

/-- A request. -/
structure Request where
  method : String
  uri : String
  /-- The content type of the body, if it is given. -/
  contentType : Option String
  body : Bytes
  deriving DecidableEq, Repr

/-- A response: its status, and its body if it has one in JSON. -/
structure Response where
  status : Nat
  body : Option Json.Value := none
  deriving Repr

/-! ### Addresses -/

/-- What follows the scheme and the host of an address, if it has them. -/
def dropHost : List Char → List Char
  | '/' :: rest => '/' :: rest
  | cs =>
    match cs.dropWhile fun c => c.isAlphanum || c == '+' || c == '-' || c == '.' with
    | ':' :: '/' :: '/' :: rest =>
      match rest.dropWhile fun c => c != '/' && c != '?' && c != '#' with
      | '/' :: path => '/' :: path
      | other => '/' :: other
    | _ => cs

/-- The path of an address, without a query. -/
def pathOf (uri : List Char) : List Char :=
  (dropHost uri).takeWhile fun c => c != '?' && c != '#'

/-- Bytes with every percent sign that two hexadecimal digits follow taken as the byte they
stand for. -/
def unescapeBytes : List Char → Bytes
  | [] => []
  | '%' :: a :: b :: rest =>
    match Bytes.hexValue? a, Bytes.hexValue? b with
    | some x, some y => UInt8.ofNat (x * 16 + y) :: unescapeBytes rest
    | _, _ => Bytes.ofString "%" ++ unescapeBytes (a :: b :: rest)
  | c :: rest => Bytes.ofString (String.singleton c) ++ unescapeBytes rest

/-- The text that percent escapes stand for, if it is one. -/
def percentDecode (cs : List Char) : Option (List Char) :=
  (Bytes.toString? (unescapeBytes cs)).map String.toList

/-! ### Media types -/

/-- Whether a character may stand in a name. -/
def isToken (c : Char) : Bool :=
  c.isAlphanum ||
    ['!', '#', '$', '%', '&', '\'', '*', '+', '-', '.', '^', '_', '\x60', '|', '~'].contains c

/-- Whether a character may stand between quotes. -/
def isQuotable (c : Char) : Bool := 31 < c.toNat && c.toNat ≠ 127 && c.toNat < 128

/-- Whether a text is a list of parameters. Blanks may stand before a name and after a quoted
value. A quoted value has at least one character, so a quote right after the opening one belongs
to the value. -/
def areParameters : Nat → List Char → Bool
  | 0, _ => false
  | _ + 1, [] => true
  | fuel + 1, ' ' :: rest => areParameters fuel rest
  | fuel + 1, cs =>
    match cs.span isToken with
    | ([], _) => false
    | (_, '=' :: '"' :: first :: rest) =>
      match rest.dropWhile fun c => isQuotable c && c != '"' with
      | '"' :: rest =>
        match rest.dropWhile (· == ' ') with
        | [] => isQuotable first
        | ';' :: rest => isQuotable first && areParameters fuel rest
        | _ => false
      | _ => false
    | (_, '=' :: rest) =>
      match rest.span isToken with
      | (_, []) => true
      | ([], _) => false
      | (_, ';' :: rest) => areParameters fuel rest
      | _ => false
    | _ => false

/-- The part of a name before its last plus sign, and the part after it, if there is one. A plus
sign at the front does not count. -/
def splitSuffix (name : List Char) : List Char × Option (List Char) :=
  let suffix := (name.reverse.takeWhile (· != '+')).reverse
  let stem := name.take (name.length - suffix.length - 1)
  if stem = [] then (name, none) else (stem, some suffix)

/-- Whether a content type is JSON, or a format written in JSON. -/
def isJson (contentType : List Char) : Bool :=
  match contentType.span isToken with
  | (kind, '/' :: rest) =>
    let (name, rest) := rest.span isToken
    let wellFormed := match rest with
      | [] => !name.isEmpty
      | ';' :: parameters => !name.isEmpty && areParameters (parameters.length + 1) parameters
      | _ => false
    let (stem, suffix) := splitSuffix (name.map Char.toLower)
    let json := ['j', 's', 'o', 'n']
    wellFormed && String.ofList (kind.map Char.toLower) == "application"
      && (stem == json || suffix == some json)
  | _ => false

end IncrementalBuild.Http
