import ImportQuery.Json.Basic
import ImportQuery.Json.Number
import ImportQuery.Text.Basic

/-!
# Reading JSON

A reader for JSON texts. It accepts what the standard describes and nothing else, and says what is
wrong with a text that it refuses, and where. Values that lie inside too many others are refused
too.
-/

namespace ImportQuery.Json

/-- The most arrays and objects that may lie inside one another. -/
def maxNesting : Nat := 127

/-! ## Faults -/

/-- What is wrong with a text that is not JSON. -/
inductive Fault
  | endOfText
  | value
  | number
  /-- A number is not finite in doubles. -/
  | numberRange
  | controlCharacter
  | escape
  /-- Half of a surrogate pair. -/
  | surrogate
  | key
  | colon
  | arrayEnd
  | objectEnd
  | trailing
  | tooDeep
  deriving DecidableEq, Repr

/-- How messages name a fault. -/
def Fault.describe : Fault → String
  | endOfText => "unexpected end of text"
  | value => "expected value"
  | number => "invalid number"
  | numberRange => "number out of range"
  | controlCharacter => "control character in a string"
  | escape => "invalid escape"
  | surrogate => "surrogate without its other half"
  | key => "key must be a string"
  | colon => "expected ':'"
  | arrayEnd => "expected ',' or ']'"
  | objectEnd => "expected ',' or a closing brace"
  | trailing => "trailing characters"
  | tooDeep => "too many values inside one another"

/-- Why a text is not JSON. -/
structure ReadError where
  fault : Fault
  /-- Where reading stopped. -/
  place : Text.Place
  deriving DecidableEq, Repr

/-- The message that reports an error. -/
def ReadError.message (e : ReadError) : String := s!"{e.fault.describe} at {e.place.describe}"

/-- Where reading stops: a fault, and the text from it on. -/
structure Stop where
  fault : Fault
  rest : List Char

/-- Stop at a fault in front of `rest`. Where nothing is left, the fault is that the text ends. -/
def stop {α : Type} (fault : Fault) (rest : List Char) : Except Stop α :=
  .error ⟨if rest.isEmpty then .endOfText else fault, rest⟩

/-- The white space of JSON. -/
def isSpace (c : Char) : Bool := c == ' ' || c == '\n' || c == '\r' || c == '\t'

/-- The text behind white space. -/
def skipSpace (text : List Char) : List Char := text.dropWhile isSpace

/-! ## Strings -/

/-- The value of a hexadecimal digit. -/
def hexDigit? (c : Char) : Option Nat :=
  if c.isDigit then some (c.toNat - '0'.toNat)
  else if 'a' ≤ c ∧ c ≤ 'f' then some (c.toNat - 'a'.toNat + 10)
  else if 'A' ≤ c ∧ c ≤ 'F' then some (c.toNat - 'A'.toNat + 10)
  else none

/-- The number that `n` hexadecimal digits spell, behind digits that spell `high`. -/
def takeHex (high : Nat) : Nat → List Char → Except Stop (Nat × List Char)
  | 0, text => .ok (high, text)
  | _ + 1, [] => stop .escape []
  | n + 1, c :: rest =>
    match hexDigit? c with
    | none => stop .escape (c :: rest)
    | some digit => takeHex (high * 16 + digit) n rest

/-- The 16-bit unit that four hexadecimal digits spell. -/
def takeUnit (text : List Char) : Except Stop (Nat × List Char) := takeHex 0 4 text

/-- The character that one unit spells, or a pair of surrogates. A surrogate alone is a fault. -/
def takeCodePoint (text : List Char) : Except Stop (Char × List Char) := do
  let (unit, rest) ← takeUnit text
  if 0xD800 ≤ unit ∧ unit < 0xDC00 then
    match rest with
    | '\\' :: 'u' :: rest =>
      let (low, rest) ← takeUnit rest
      if 0xDC00 ≤ low ∧ low < 0xE000 then
        return (Char.ofNat (0x10000 + (unit - 0xD800) * 0x400 + (low - 0xDC00)), rest)
      else stop .surrogate rest
    | _ => stop .surrogate rest
  else if 0xDC00 ≤ unit ∧ unit < 0xE000 then stop .surrogate rest
  else return (Char.ofNat unit, rest)

/-- The character behind a backslash. -/
def takeEscape : List Char → Except Stop (Char × List Char)
  | '"' :: rest => .ok ('"', rest)
  | '\\' :: rest => .ok ('\\', rest)
  | '/' :: rest => .ok ('/', rest)
  | 'b' :: rest => .ok ('\x08', rest)
  | 'f' :: rest => .ok ('\x0c', rest)
  | 'n' :: rest => .ok ('\n', rest)
  | 'r' :: rest => .ok ('\r', rest)
  | 't' :: rest => .ok ('\t', rest)
  | 'u' :: rest => takeCodePoint rest
  | text => stop .escape text

/-- The rest of a string of at most `clock` characters, up to its closing quote. -/
def takeCharsFor : Nat → List Char → Except Stop (List Char × List Char)
  | 0, text => stop .endOfText text
  | _ + 1, [] => stop .endOfText []
  | clock + 1, c :: rest =>
    if c = '"' then .ok ([], rest)
    else if c = '\\' then do
      let (x, rest) ← takeEscape rest
      let (xs, rest) ← takeCharsFor clock rest
      return (x :: xs, rest)
    else if c.toNat < 0x20 then stop .controlCharacter (c :: rest)
    else do
      let (xs, rest) ← takeCharsFor clock rest
      return (c :: xs, rest)

/-- The rest of a string, up to its closing quote. -/
def takeString (text : List Char) : Except Stop (String × List Char) := do
  let (chars, rest) ← takeCharsFor text.length text
  return (String.ofList chars, rest)

/-! ## Values -/

/-- A reader of values at the start of a text. -/
abbrev Reader := List Char → Except Stop (Json × List Char)

/-- The rest of an array behind an item or its opening bracket, with at most `clock` more items. -/
def takeItemsFor (value : Reader) : Nat → List Char → Except Stop (List Json × List Char)
  | 0, text => stop .endOfText text
  | clock + 1, text => do
    let (v, text) ← value text
    match skipSpace text with
    | ']' :: rest => return ([v], rest)
    | ',' :: rest =>
      let (vs, rest) ← takeItemsFor value clock rest
      return (v :: vs, rest)
    | text => stop .arrayEnd text

/-- The array behind its opening bracket. -/
def takeArray (value : Reader) (text : List Char) : Except Stop (Json × List Char) :=
  match skipSpace text with
  | ']' :: rest => .ok (array [], rest)
  | _ => do
    let (items, rest) ← takeItemsFor value (text.length + 1) text
    return (array items, rest)

/-- A member of an object. -/
def takeMember (value : Reader) (text : List Char) : Except Stop ((String × Json) × List Char) :=
  match skipSpace text with
  | '"' :: rest => do
    let (key, rest) ← takeString rest
    match skipSpace rest with
    | ':' :: rest =>
      let (v, rest) ← value rest
      return ((key, v), rest)
    | text => stop .colon text
  | text => stop .key text

/-- The rest of an object behind `members`, with at most `clock` more members. Of two members with
one key the later one counts. -/
def takeMembersFor (value : Reader) :
    Nat → List (String × Json) → List Char →
      Except Stop (List (String × Json) × List Char)
  | 0, _, text => stop .endOfText text
  | clock + 1, members, text => do
    let ((key, v), text) ← takeMember value text
    let members := insertMember key v members
    match skipSpace text with
    | '\x7d' :: rest => return (members, rest)
    | ',' :: rest => takeMembersFor value clock members rest
    | text => stop .objectEnd text

/-- The object behind its opening brace. -/
def takeObject (value : Reader) (text : List Char) : Except Stop (Json × List Char) :=
  match skipSpace text with
  | '\x7d' :: rest => .ok (object [], rest)
  | _ => do
    let (members, rest) ← takeMembersFor value (text.length + 1) [] text
    return (object members, rest)

/-- The number at the start of a text. Zero with a minus sign is printed as a fraction. -/
def takeNumber (text : List Char) : Except Stop (Json × List Char) :=
  match takeNumeral? text with
  | none => stop .number text
  | some (n, rest) =>
    if n.isFinite then
      let spelling := String.ofList (text.take (text.length - rest.length))
      .ok (number (if spelling = "-0" then "-0.0" else spelling), rest)
    else stop .numberRange text

/-- The value at the start of a text. The reader `inner` is for values inside arrays and objects;
without one, these are refused. -/
def takeValue (inner : Option Reader) (text : List Char) : Except Stop (Json × List Char) :=
  match skipSpace text with
  | 'n' :: 'u' :: 'l' :: 'l' :: rest => .ok (null, rest)
  | 't' :: 'r' :: 'u' :: 'e' :: rest => .ok (bool true, rest)
  | 'f' :: 'a' :: 'l' :: 's' :: 'e' :: rest => .ok (bool false, rest)
  | '"' :: rest => (takeString rest).map fun (s, rest) => (string s, rest)
  | '[' :: rest => inner.elim (stop .tooDeep ('[' :: rest)) (takeArray · rest)
  | '\x7b' :: rest => inner.elim (stop .tooDeep ('\x7b' :: rest)) (takeObject · rest)
  | c :: rest =>
    if c = '-' ∨ c.isDigit then takeNumber (c :: rest) else stop .value (c :: rest)
  | [] => stop .value []

/-- The value at the start of a text, in which `room` arrays and objects may lie inside one
another. -/
def takeNested : Nat → Reader
  | 0 => takeValue none
  | room + 1 => takeValue (some (takeNested room))

/-- The value at the start of a text with nothing but white space behind it. -/
def takeDocument (text : List Char) : Except Stop (Json × List Char) := do
  let (v, rest) ← takeNested maxNesting text
  if (skipSpace rest).isEmpty then return (v, []) else stop .trailing (skipSpace rest)

/-- The value that a text spells. -/
def parse (text : String) : Except ReadError Json :=
  match takeDocument text.toList with
  | .ok (v, _) => .ok v
  | .error ⟨fault, rest⟩ =>
    .error ⟨fault, Text.Place.start.after (text.toList.take (text.length - rest.length))⟩

end ImportQuery.Json
