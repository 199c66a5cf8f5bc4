import ImportQuery.Eval.Basic
import ImportQuery.Expr.Render
import ImportQuery.Graph.Document
import ImportQuery.Json.Parser
import ImportQuery.Query

/-!
# Checks

A check answers a query on a graph that is given as JSON text. The query is compiled before the
graph is looked at, and a query that is empty, or only to be compiled, needs no graph.
-/

namespace ImportQuery

/-- Why a request has no answer. -/
inductive Failure
  | query (e : QueryError)
  | evaluation (e : EvalError)
  | graph (e : GraphError)
  /-- The graph is not JSON. -/
  | json (e : Json.ReadError)
  /-- The JSON is not a graph. -/
  | shape (e : Graph.ShapeError)
  | noInput
  /-- A file, or the standard input, cannot be read. -/
  | io (detail : String)
  | unknownCategory (name : String)

/-- The message that reports a failure. -/
def Failure.message : Failure → String
  | query e => e.message
  | evaluation e => "Evaluation error: " ++ e.message
  | graph e => "Graph error: " ++ e.message
  | json e => "Invalid JSON: " ++ e.message
  | shape e => "Invalid graph: " ++ e.message
  | noInput => "No graph provided. Use --graph or pipe graph JSON to stdin."
  | io detail => "IO error: " ++ detail
  | unknownCategory name =>
    s!"Unknown category: '{name}'\nRun 'depq docs' to see available categories."

/-- The failure to read a graph. -/
def Failure.ofDocument : Graph.DocumentError → Failure
  | .shape e => shape e
  | .graph e => graph e

/-- What is to be checked. -/
structure Check where
  query : String
  /-- The graph, as JSON text. -/
  input : Option String
  /-- Compile the query, and no more. -/
  syntaxOnly : Bool
  /-- A literal package that names nothing is a failure. -/
  strict : Bool
  /-- Test variants are visible from the start. -/
  includeTests : Bool

namespace Check

/-- What a check finds. -/
inductive Outcome
  | valid
  /-- There is nothing in the query. -/
  | empty
  | selected (ids : IdSet)
  deriving DecidableEq

/-- The graph that a JSON text describes, and what was reported. -/
def readGraph (text : String) : Except Failure Graph × Trace :=
  match Json.parse text with
  | .error e => (.error (.json e), [])
  | .ok document =>
    match Graph.loadJson document with
    | .error e => (.error (.ofDocument e), [])
    | .ok (g, imports) => (.ok g, [.loadedGraph g.size imports])

/-- The answer to a query that has been compiled, and what was reported. -/
def answer (c : Check) (e : Expr) : Except Failure Outcome × Trace :=
  match c.input with
  | none => (.error .noInput, [])
  | some text =>
    match readGraph text with
    | (.error failure, trace) => (.error failure, trace)
    | (.ok g, trace) =>
      match Setup.evaluate ⟨g, c.strict⟩ ⟨c.includeTests⟩ e with
      | (.error err, more) => (.error (.evaluation err), trace ++ more)
      | (.ok ids, more) =>
        (.ok (.selected ids), trace ++ more ++ [.answered e.render ids.size])

/-- What a check finds, and what was reported on the way. -/
def runTraced (c : Check) : Except Failure Outcome × Trace :=
  match compileTraced c.query with
  | (.error e, trace) => (.error (.query e), trace)
  | (.ok e?, trace) =>
    if c.syntaxOnly then (.ok .valid, trace)
    else
      match e? with
      | none => (.ok .empty, trace)
      | some e =>
        let (found, more) := c.answer e
        (found, trace ++ more)

/-- What a check finds. -/
def run (c : Check) : Except Failure Outcome := c.runTraced.1

end Check

/-- The canonical form of a query on a line, or its outline; nothing for an empty query. -/
def formatQuery (text : String) (outline : Bool) : Except Failure String :=
  match compile text with
  | .error e => .error (.query e)
  | .ok none => .ok ""
  | .ok (some e) => .ok (if outline then e.tree else e.render ++ "\n")

/-- The lines that list the tokens of a query. -/
def listTokens (text : String) : Except Failure (List String) :=
  match Token.tokenize text with
  | .error e => .error (.query (.scan e))
  | .ok tokens => .ok (tokens.map Token.describe)

end ImportQuery
