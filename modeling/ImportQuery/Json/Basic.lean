/-!
# JSON values

The values of JSON, and how they are printed. A number is kept as the text it was written with. The
members of an object are in the order of their keys, and no key occurs twice in an object that has
been read.
-/

namespace ImportQuery

/-- A JSON value. -/
inductive Json
  | null
  | bool (b : Bool)
  | number (text : String)
  | string (s : String)
  | array (items : List Json)
  | object (members : List (String × Json))
  deriving Inhabited, Repr

namespace Json

/-- The member of an object with the given key. Other values have no members. -/
def member? (key : String) : Json → Option Json
  | object members => members.lookup key
  | _ => none

/-- The items of an array. -/
def items? : Json → Option (List Json)
  | array items => some items
  | _ => none

/-- The members with one more, in the order of the keys. It takes the place of a member with the
same key. -/
def insertMember (key : String) (value : Json) : List (String × Json) → List (String × Json)
  | [] => [(key, value)]
  | (k, v) :: members =>
    if key < k then (key, value) :: (k, v) :: members
    else if key = k then (key, value) :: members
    else (k, v) :: insertMember key value members

/-! ## Printing

JSON on one line without white space, and lists of texts with a line for each. A string is escaped
only where it must be: quotes, backslashes and the controls below U+0020. -/

/-- The four hexadecimal digits of an escape. -/
def hexDigits (n : Nat) : List Char :=
  let digits := Nat.toDigits 16 n
  List.replicate (4 - digits.length) '0' ++ digits

/-- The spelling of one character in a string. -/
def escapeChar (c : Char) : List Char :=
  if c = '"' then ['\\', '"']
  else if c = '\\' then ['\\', '\\']
  else if c = '\x08' then ['\\', 'b']
  else if c = '\x0c' then ['\\', 'f']
  else if c = '\n' then ['\\', 'n']
  else if c = '\r' then ['\\', 'r']
  else if c = '\t' then ['\\', 't']
  else if c.toNat < 0x20 then ['\\', 'u'] ++ hexDigits c.toNat
  else [c]

/-- The literal of a string. -/
def renderString (s : String) : String :=
  String.ofList ('"' :: s.toList.flatMap escapeChar ++ ['"'])

mutual

/-- A value on one line. -/
def render : Json → String
  | null => "null"
  | bool true => "true"
  | bool false => "false"
  | number text => text
  | string s => renderString s
  | array items => "[" ++ ",".intercalate (renderItems items) ++ "]"
  | object members => "\x7b" ++ ",".intercalate (renderMembers members) ++ "\x7d"

/-- The items of an array, each on one line. -/
def renderItems : List Json → List String
  | [] => []
  | v :: vs => v.render :: renderItems vs

/-- The members of an object, each on one line. -/
def renderMembers : List (String × Json) → List String
  | [] => []
  | (key, v) :: members => (renderString key ++ ":" ++ v.render) :: renderMembers members

end

/-- A list of texts on one line. -/
def renderTexts (texts : List String) : String := (array (texts.map string)).render

/-- A list of texts with a line for each. -/
def prettyTexts : List String → String
  | [] => "[]"
  | texts => "[\n  " ++ ",\n  ".intercalate (texts.map renderString) ++ "\n]"

end Json

end ImportQuery
