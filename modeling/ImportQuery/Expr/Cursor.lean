import ImportQuery.Expr.Basic
import ImportQuery.Token.Basic
import ImportQuery.Trace

/-!
# Cursors over tokens

The state of reading an expression from tokens: the tokens still to be read, how many have been
read, and how many parentheses are open. A reader is a program over a cursor. All it does is to look
at the cursor, to move it, and to find something or fail; a reader that fails leaves the cursor
where it stopped, with the parentheses it opened still counted, and whoever holds the cursor may go
on from there.

* `Move` : the ways to move a cursor.
* `ParseM` : readers, and `ParseM.run`, what comes of a reader at a cursor.

The readers here look at a token or two, and repeat other readers. The grammar is built from them in
`Expr/Parser.lean`.
-/

namespace ImportQuery

namespace Expr

/-- The deepest nesting of parentheses, and of operators in them, that a query may have. -/
def maxDepth : Nat := 128

/-- What would have allowed reading to go on. -/
inductive Expected
  /-- The parenthesis behind the name of a function. -/
  | openingCall
  /-- The end of an argument of a function. -/
  | closingCall
  /-- A proper operator. -/
  | operator
  /-- The end of an operand of an operator that stands before its operands. -/
  | closingOperands
  /-- The end of an item of a list in parentheses. -/
  | closingGroup
  /-- The start of an expression. -/
  | expression
  /-- The end of a statement. -/
  | endOfStatement
  deriving DecidableEq, Repr

/-- How messages name what was expected. -/
def Expected.describe : Expected → String
  | .openingCall => "'(' after function name"
  | .closingCall => "',' or ')' after function argument"
  | .operator => "'+' or '-'"
  | .closingOperands => "',' or ')' after operand"
  | .closingGroup => "',' or ')' to close group"
  | .expression => "expression"
  | .endOfStatement => "';' or end of input"

/-- Why tokens are no query. Tokens are counted from 0, statements from 1. -/
inductive ParseError
  | unexpectedToken (expected : Expected) (found : Token) (index : Nat)
  | unexpectedEnd (expected : Expected) (index : Nat)
  /-- An assignment sign that does not follow the first word of a statement. -/
  | misplacedAssignment (index : Nat)
  /-- The operator at `index` stands before a list that does not have two operands. -/
  | operandCount (op : SetOp) (found index : Nat)
  /-- A statement before the last that binds nothing. -/
  | nonFinalExpression (statement : Nat)
  | tooDeep (index : Nat)
  deriving DecidableEq, Repr

/-- The message that reports an error. -/
def ParseError.message : ParseError → String
  | unexpectedToken expected found index =>
    s!"Expected {expected.describe}, found '{found.text}' at token {index}"
  | unexpectedEnd expected index =>
    s!"Expected {expected.describe}, found end of input at token {index}"
  | misplacedAssignment index =>
    s!"Assignment ':=' at token {index} is only allowed at the start of a statement"
  | operandCount op found index =>
    s!"Prefix operator '{op.symbol}' at token {index} takes exactly two operands, found {found}"
  | nonFinalExpression statement =>
    s!"Statement {statement} is not an assignment; only the last statement may be an expression"
  | tooDeep index => s!"Query nests deeper than {maxDepth} levels at token {index}"

/-- The index that an error gives, if it says that the token there, or the end, is unexpected. -/
abbrev ParseError.place? : ParseError → Option Nat
  | unexpectedToken _ _ i | unexpectedEnd _ i | misplacedAssignment i => some i
  | operandCount .. | nonFinalExpression _ | tooDeep _ => none

/-! ## Cursors -/

/-- How far reading has come. -/
structure Cursor where
  rest : List Token
  /-- The number of tokens read. -/
  index : Nat
  /-- The number of parentheses open. -/
  depth : Nat
  trace : Trace

/-- The cursor before the first token. -/
def Cursor.ofTokens (tokens : List Token) : Cursor := ⟨tokens, 0, 0, []⟩

/-- The cursor behind the next `n` tokens. -/
def Cursor.advance (c : Cursor) (n : Nat) : Cursor :=
  { c with rest := c.rest.drop n, index := c.index + n }

/-- The next token is of the given kind. -/
def Cursor.sees (c : Cursor) (kind : Token.Kind) : Bool :=
  match c.rest with
  | t :: _ => t.kind == kind
  | [] => false

/-- The error that the next token is not what was expected. An assignment sign has an error of its
own. -/
def Cursor.unexpected (c : Cursor) (expected : Expected) : ParseError :=
  match c.rest with
  | t :: _ =>
    if t.kind = .assign then .misplacedAssignment c.index
    else .unexpectedToken expected t c.index
  | [] => .unexpectedEnd expected c.index

/-- A move of a cursor. -/
inductive Move
  | advance (n : Nat)
  /-- Count a parenthesis as open. -/
  | enter
  /-- Count a parenthesis as closed. -/
  | leave
  | report (e : Event)

/-- The cursor behind a move. -/
@[simp] def Move.apply : Move → Cursor → Cursor
  | advance n, c => c.advance n
  | enter, c => { c with depth := c.depth + 1 }
  | leave, c => { c with depth := c.depth - 1 }
  | report e, c => { c with trace := c.trace ++ [e] }

/-! ## Readers -/

/-- Readers: they move a cursor, and find something or fail. -/
inductive ParseM : Type → Type 1
  | found {α : Type} (a : α) : ParseM α
  | andThen {α β : Type} (p : ParseM α) (f : α → ParseM β) : ParseM β
  /-- Look at the cursor. -/
  | cursor : ParseM Cursor
  | move (m : Move) : ParseM Unit
  /-- Fail because the next token is not what was expected. -/
  | unexpected {α : Type} (expected : Expected) : ParseM α
  /-- Fail for a reason that is about no single token. -/
  | fail {α : Type} (e : ParseError) (h : e.place? = none := by rfl) : ParseM α

namespace ParseM

instance : Monad ParseM where
  pure := found
  bind := andThen

/-- What comes of a reader that starts at a cursor, and the cursor that it leaves. -/
def run : ∀ {α : Type}, ParseM α → Cursor → Except ParseError α × Cursor
  | _, found a, c => (.ok a, c)
  | _, andThen p f, c =>
    match p.run c with
    | (.ok a, c) => (f a).run c
    | (.error e, c) => (.error e, c)
  | _, cursor, c => (.ok c, c)
  | _, move m, c => (.ok (), m.apply c)
  | _, unexpected expected, c => (.error (c.unexpected expected), c)
  | _, fail e _, c => (.error e, c)

theorem run_andThen {α β : Type} (p : ParseM α) (f : α → ParseM β) (c : Cursor) :
    (p >>= f).run c = match p.run c with
      | (.ok a, c) => (f a).run c
      | (.error e, c) => (.error e, c) := by
  change run (andThen p f) c = _
  rw [run]

/-- Move over the next `n` tokens. -/
def advance (n : Nat) : ParseM Unit := move (.advance n)

/-- Count a parenthesis as open. -/
def enter : ParseM Unit := move .enter

/-- Count a parenthesis as closed. -/
def leave : ParseM Unit := move .leave

/-- Add an event to the trace. -/
def report (e : Event) : ParseM Unit := move (.report e)

/-- Fail because the query nests too deeply. -/
def tooDeep {α : Type} : ParseM α := do fail (.tooDeep (← cursor).index)

/-- Move over a token of the given kind. -/
def expect (kind : Token.Kind) (expected : Expected) : ParseM Unit := do
  if (← cursor).sees kind then advance 1 else unexpected expected

/-- Read items as long as `more` holds, at most `clock` of them. -/
def manyFor {α : Type} (more : Cursor → Bool) (item : ParseM α) : Nat → ParseM (List α)
  | 0 => return []
  | clock + 1 => do
    if more (← cursor) then
      let x ← item
      let xs ← manyFor more item clock
      return x :: xs
    else return []

/-- Read items as long as `more` holds. An item takes up at least one token, so there are no more
items than tokens. -/
def many {α : Type} (more : Cursor → Bool) (item : ParseM α) : ParseM (List α) := do
  manyFor more item (← cursor).rest.length

end ParseM

end Expr

end ImportQuery
