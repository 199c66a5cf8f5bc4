import ImportQuery.Eval.Basic
import ImportQuery.Graph.Edit

/-!
# Sessions

A graph and a scope that serve one request after another. The graph grows, and variables are bound
from outside or by the expressions that are evaluated. A request that fails does not end the
session: what it had bound before it failed stays bound.
-/

namespace ImportQuery

/-- A graph and the variables so far. -/
structure Session where
  graph : Graph
  scope : Scope

namespace Session

/-- What can be asked of a session. -/
inductive Request
  | edit (e : Graph.Edit)
  /-- Bind a variable to a given set. -/
  | bind (name : String) (ids : IdSet)
  | eval (strict : Bool) (s : Setting) (e : Expr)

/-- The session before the first request. -/
def start : Session := ⟨.empty, .empty⟩

/-- The set that an expression denotes in a session, and the variables afterwards. -/
def eval (σ : Session) (strict : Bool) (s : Setting) (e : Expr) : Except EvalError IdSet × Scope :=
  let (answer, st) := (Setup.eval ⟨σ.graph, strict⟩ s e).run ⟨σ.scope, []⟩
  (answer, st.scope)

/-- The session after a request, whether it succeeds or fails. -/
def step (σ : Session) : Request → Session
  | .edit e => { σ with graph := σ.graph.apply e }
  | .bind name ids => { σ with scope := σ.scope.bind name ids }
  | .eval strict s e => { σ with scope := (σ.eval strict s e).2 }

end Session

end ImportQuery
