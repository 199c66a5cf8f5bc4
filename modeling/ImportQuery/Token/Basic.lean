import ImportQuery.Text.Basic

/-!
# Tokens

A query is read as a list of tokens. A token has a kind and the text it was read from, except that
the colon of a selector is not part of its text.

Words name packages, functions and selectors. The characters of a word are letters and digits of
any script and most of the ASCII marks that occur in package paths. A `-` may stand inside a word,
but begins none; a `+` ends it, so that `y+q` is three tokens.
-/

namespace ImportQuery

namespace Token

/-- The kinds of tokens. -/
inductive Kind
  /-- The path or pattern of a package. -/
  | package
  /-- The set operator `+` or `-`. -/
  | operator
  | openParen
  | closeParen
  | comma
  /-- The tag of a selector, with its sign. -/
  | selector
  /-- The name of a function; an opening parenthesis follows at once. -/
  | function
  | assign
  | semicolon
  deriving DecidableEq, Repr

/-- The name under which token listings show a kind. -/
def Kind.name : Kind → String
  | .package => "Package"
  | .operator => "Op"
  | .openParen => "LeftParen"
  | .closeParen => "RightParen"
  | .comma => "Comma"
  | .selector => "Selector"
  | .function => "Func"
  | .assign => "Assign"
  | .semicolon => "Semicolon"

/-- The ASCII marks that may begin a word. -/
def wordMarks : List Char :=
  ['_', '.', '/', '=', '@', '~', '*', '#', '!', '%', '&', '?', '[', ']', '<', '>', '^', '\'', '|']

/-- The character may begin a word. -/
def isWordStart (c : Char) : Bool := Text.isAlphanumeric c || wordMarks.contains c

/-- The character may stand inside a word. -/
def isWordChar (c : Char) : Bool := c == '-' || isWordStart c

/-- The sign of a selector tag. -/
def isSign (c : Char) : Bool := c == '+' || c == '-'

end Token

/-- A token: its kind, and the text that tells it from others of the kind. -/
structure Token where
  kind : Token.Kind
  text : String
  deriving DecidableEq, Repr

/-- The line that shows a token in a listing. -/
def Token.describe (t : Token) : String := t.kind.name ++ " " ++ Text.quoted t.text

end ImportQuery
