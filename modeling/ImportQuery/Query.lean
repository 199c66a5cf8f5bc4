import ImportQuery.Expr.Parser
import ImportQuery.Token.Scanner

/-!
# Queries as text

A query is compiled from text to an expression, by way of its tokens.
-/

namespace ImportQuery

/-- Why a text is no query. -/
inductive QueryError
  | scan (e : Token.ScanError)
  | parse (e : Expr.ParseError)
  deriving DecidableEq, Repr

/-- The message that reports an error. -/
def QueryError.message : QueryError → String
  | scan e => "Lex error: " ++ e.message
  | parse e => "Parse error: " ++ e.message

/-- The expression that a text spells, if there is anything in the text, and what was reported on
the way. -/
def compileTraced (text : String) : Except QueryError (Option Expr) × Trace :=
  match Token.tokenize text with
  | .error e => (.error (.scan e), [])
  | .ok tokens =>
    let (answer, c) := Expr.Parser.program.run (.ofTokens tokens)
    (answer.mapError .parse, c.trace)

/-- The expression that a text spells, if there is anything in the text. -/
def compile (text : String) : Except QueryError (Option Expr) := (compileTraced text).1

end ImportQuery
