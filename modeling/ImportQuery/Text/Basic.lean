import ImportQuery.Text.Unicode

/-!
# Texts

How texts are trimmed, how a message quotes a text, and how it names a place in one.
-/

namespace ImportQuery.Text

/-- The text without the white space at its two ends. -/
def trim (text : List Char) : List Char :=
  ((text.dropWhile isBlank).reverse.dropWhile isBlank).reverse

/-! ## Quotes

A text between double quotes, on one line and with nothing in it that a reader cannot see: quotes
and backslashes are escaped, the common control characters have a letter each, and whatever else
would not show as a character of its own is written by its code point. -/

/-- The characters written by their code point: controls, blanks other than the space, marks on the
character before them, and what is not shown at all. -/
def isHidden (c : Char) : Bool :=
  c.toNat < 0x20 || (0x7F ≤ c.toNat && c.toNat < 0xA0) || (isBlank c && c != ' ') ||
    isExtender c || isIgnorable c

/-- The spelling of one character between the quotes. -/
def quoteChar (c : Char) : List Char :=
  if c = '"' then ['\\', '"']
  else if c = '\\' then ['\\', '\\']
  else if c = '\n' then ['\\', 'n']
  else if c = '\r' then ['\\', 'r']
  else if c = '\t' then ['\\', 't']
  else if c.toNat = 0 then ['\\', '0']
  else if isHidden c then ['\\', 'u', '\x7b'] ++ Nat.toDigits 16 c.toNat ++ ['\x7d']
  else [c]

/-- The text between double quotes. -/
def quoted (text : String) : String :=
  String.ofList ('"' :: text.toList.flatMap quoteChar ++ ['"'])

/-! ## Places

Where a character stands: how many characters come before it, and its line and column. Only a line
feed ends a line. -/

/-- A place in a text. The offset counts from 0, the line and the column from 1. -/
structure Place where
  offset : Nat
  line : Nat
  column : Nat
  deriving DecidableEq, Repr

namespace Place

/-- The place of the first character. -/
def start : Place := ⟨0, 1, 1⟩

/-- The place behind a character that stands at `p`. -/
def next (p : Place) (c : Char) : Place :=
  if c = '\n' then ⟨p.offset + 1, p.line + 1, 1⟩ else ⟨p.offset + 1, p.line, p.column + 1⟩

/-- The place behind a run of characters that begins at `p`. -/
def after (p : Place) (cs : List Char) : Place := cs.foldl next p

/-- How messages name a place. -/
def describe (p : Place) : String := s!"line {p.line}, column {p.column}"

@[simp] theorem after_cons (p : Place) (c : Char) (cs : List Char) :
    p.after (c :: cs) = (p.next c).after cs := rfl

theorem after_append (p : Place) (cs ds : List Char) :
    p.after (cs ++ ds) = (p.after cs).after ds := List.foldl_append

end Place

end ImportQuery.Text
