/-!
# Patterns

A word in a query names one package, or all that fit a pattern. In a pattern `...` stands for any
text within a line, the empty one included; the rest stands for itself. A pattern that ends in
`/...` also fits what comes before that: `x/...` fits `x`. The word `std` is the pattern of the
packages whose path begins with an element without a dot.

A pattern is split at its gaps, and an identifier is matched segment by segment, each at the first
place where it occurs. The first place is as good as any: what lies between two occurrences of a
segment may as well belong to the gap behind it.
-/

namespace ImportQuery

/-- What a word in a query can name. -/
inductive Pattern
  | exact (name : String)
  | std
  /-- The segments between the gaps, and those of the text before a final `/...`. -/
  | wildcard (segments : List (List Char)) (stem : Option (List (List Char)))
  deriving DecidableEq, Repr

namespace Pattern

/-- The mark of a gap. -/
def gap : List Char := ['.', '.', '.']

/-- The pieces of a text between the marks of gaps, which are found from the left. -/
def split : List Char → List (List Char)
  | [] => [[]]
  | '.' :: '.' :: '.' :: rest => [] :: split rest
  | c :: rest =>
    match split rest with
    | [] => [[c]]
    | s :: ss => (c :: s) :: ss

/-- The text before a final `/...`. -/
def stem? (text : List Char) : Option (List Char) :=
  ('/' :: gap).isSuffixOf? text

/-- The pattern that a word spells. -/
def ofText (text : String) : Pattern :=
  if text = "std" then .std
  else
    match split text.toList with
    | [_] => .exact text
    | segments => .wildcard segments ((stem? text.toList).map split)

/-- The pattern names one package, whether it is there or not. -/
def isLiteral : Pattern → Bool
  | exact _ => true
  | _ => false

/-- The text behind the first occurrence of `segment` that a gap can lead to. -/
def seek? (segment : List Char) : List Char → Option (List Char)
  | [] => if segment.isEmpty then some [] else none
  | c :: rest =>
    match segment.isPrefixOf? (c :: rest) with
    | some behind => some behind
    | none => if c = '\n' then none else seek? segment rest

/-- The text ends in `segment`, and a gap can lead there. -/
def closes (segment text : List Char) : Bool :=
  match segment.isSuffixOf? text with
  | some between => between.all (· ≠ '\n')
  | none => false

/-- The text is made of the segments, with a gap before each. -/
def fitsBehindGap : List (List Char) → List Char → Bool
  | [], _ => false
  | [segment], text => closes segment text
  | segment :: segments, text =>
    match seek? segment text with
    | some behind => fitsBehindGap segments behind
    | none => false

/-- The text is made of the segments, with a gap between neighbours. -/
def fits : List (List Char) → List Char → Bool
  | [], _ => false
  | [segment], text => segment == text
  | segment :: segments, text =>
    match segment.isPrefixOf? text with
    | some behind => fitsBehindGap segments behind
    | none => false

/-- The identifier fits the pattern. -/
def accepts (p : Pattern) (id : String) : Bool :=
  match p with
  | exact name => name = id
  | std => (id.toList.takeWhile (· ≠ '/')).all (· ≠ '.')
  | wildcard segments stem =>
    fits segments id.toList || stem.any (fits · id.toList)

end Pattern

end ImportQuery
