import ImportQuery.Eval.Function
import ImportQuery.Eval.Selector
import ImportQuery.Expr.Basic
import ImportQuery.Graph.Pattern
import ImportQuery.Trace
import Std.Data.ExtTreeMap

/-!
# Evaluation

The set that an expression denotes on a graph. Subexpressions are evaluated from left to right, and
the first error ends the evaluation; what has been bound before stays bound. Whether a call is
possible at all is found out before its arguments are evaluated.

One exit is left out. An engine that compiles patterns may refuse a word whose pattern grows too
big for it, which would end the evaluation of that word with an error of its own, where the word is
no variable. Here every word with gaps is assumed to be a pattern that the engine accepts; whether
it does depends on the word alone, and not on the graph, the settings or the scope.
-/

namespace ImportQuery

/-! ## Scopes -/

/-- Variables and their values. Two scopes with the same bindings are equal. -/
structure Scope where
  bindings : Std.ExtTreeMap String IdSet
  deriving DecidableEq

namespace Scope

/-- The scope without variables. -/
def empty : Scope := ⟨∅⟩

/-- The value of a variable. -/
def get? (s : Scope) (name : String) : Option IdSet := s.bindings[name]?

/-- The scope in which `name` has the value `ids`, whatever it had before. -/
def bind (s : Scope) (name : String) (ids : IdSet) : Scope := ⟨s.bindings.insert name ids⟩

@[simp] theorem get?_empty (name : String) : empty.get? name = none := by simp [get?, empty]

theorem get?_bind (s : Scope) (name x : String) (ids : IdSet) :
    (s.bind name ids).get? x = if x = name then some ids else s.get? x := by
  by_cases h : x = name
  · simp [get?, bind, h]
  · simp [get?, bind, Std.ExtTreeMap.getElem?_insert, h, Ne.symm h]

end Scope

/-! ## Evaluations -/

/-- Why an expression denotes no set. -/
inductive EvalError
  | undefinedFunction (name : String)
  /-- The tag is given with its sign. -/
  | unknownSelector (tag : String)
  | arity (function : String) (expected : Arity) (found : Nat)
  | setting (e : SettingError)
  /-- In a strict evaluation, a literal package that is neither a variable nor a node. -/
  | unresolvedPackage (name : String)
  deriving DecidableEq, Repr

/-- The message that reports an error. -/
def EvalError.message : EvalError → String
  | undefinedFunction name => s!"Undefined function: {name}"
  | unknownSelector tag => s!"Unknown selector: :{tag}"
  | arity function expected found =>
    s!"Function {function} expects {expected.describe} argument(s), got {found}"
  | setting e => e.message
  | unresolvedPackage name => s!"Unresolved package or variable: {name}"

/-- What does not change during an evaluation. -/
structure Setup where
  graph : Graph
  /-- A literal package that names nothing is an error, and not the empty set. -/
  strict : Bool

/-- What changes during an evaluation. -/
structure EvalState where
  scope : Scope
  trace : Trace
  deriving DecidableEq

/-- Evaluations: they change the state, and give a set or fail. -/
abbrev EvalM := ExceptT EvalError (StateM EvalState)

namespace EvalM

/-- Add an event to the trace. -/
def report (e : Event) : EvalM Unit := modify fun st => { st with trace := st.trace ++ [e] }

/-- Bind a variable. -/
def bindName (name : String) (ids : IdSet) : EvalM Unit :=
  modify fun st => { st with scope := st.scope.bind name ids }

/-- Fail unless a function takes so many arguments. -/
def checkArity (function : String) (expected : Arity) (found : Nat) : EvalM Unit :=
  if expected.admits found then return ()
  else throw (.arity function expected found)

end EvalM

open EvalM

/-- The set after the selector of a tag. -/
def Graph.select (g : Graph) (s : Setting) (ids : IdSet) (text : String) : EvalM IdSet := do
  let tag := Tag.ofText text
  match Selector.ofName? tag.name with
  | none => throw (.unknownSelector text)
  | some sel =>
    let found := sel.find g s ids
    report (.matched text found.size ids.size)
    return tag.sign.combine ids found

/-- The set of the packages that a word names: the value of a variable, a single package, or the
visible packages that fit a pattern. -/
def Setup.resolve (u : Setup) (s : Setting) (name : String) : EvalM IdSet := do
  match (← get).scope.get? name with
  | some ids => return ids
  | none =>
    let pattern := Pattern.ofText name
    if pattern.isLiteral then
      if u.graph.contains name then return .ofList [name]
      else if u.strict then throw (.unresolvedPackage name)
      else
        report (.unmatched name)
        return ∅
    else return (u.graph.visible s).filter pattern.accepts

/-- The key and the value of a name of the form `key=value`. -/
def splitSetting? (name : String) : Option (String × String) :=
  match name.toList.dropWhile (· ≠ '=') with
  | [] => none
  | _ :: value => some (String.ofList (name.toList.takeWhile (· ≠ '=')), String.ofList value)

/-- The set that an operator makes of two. -/
def SetOp.apply : SetOp → IdSet → IdSet → IdSet
  | union, a, b => a ∪ b
  | difference, a, b => a \ b

namespace Setup

mutual

/-- The set that an expression denotes under the given settings. -/
def eval (u : Setup) (s : Setting) : Expr → EvalM IdSet
  | .package name => u.resolve s name
  | .selected base tags => do
    let ids ← u.eval s base
    tags.foldlM (u.graph.select s) ids
  | .binary op left right => do
    let a ← u.eval s left
    let b ← u.eval s right
    return op.apply a b
  | .call name args =>
    match splitSetting? name with
    | some (key, value) => do
      checkArity name (.atLeast 1) args.length
      match s.change key value with
      | .error e => throw (.setting e)
      | .ok inner =>
        report (.changedSetting args.length key value)
        return .unions (← u.evalEach inner args)
    | none => do
      report (.called name args.length)
      match GraphFunction.ofName? name with
      | none => throw (.undefinedFunction name)
      | some f =>
        checkArity name f.arity args.length
        return f.apply u.graph s (← u.evalEach s args)
  | .assign name value => do
    let ids ← u.eval s value
    report (.bound name ids.size)
    bindName name ids
    return ids
  | .program statements => u.evalInOrder s ∅ statements

/-- The sets that the expressions of a list denote. -/
def evalEach (u : Setup) (s : Setting) : List Expr → EvalM (List IdSet)
  | [] => return []
  | e :: es => do
    let ids ← u.eval s e
    return ids :: (← u.evalEach s es)

/-- The set that the last of some statements denotes, or `result` if there is none. -/
def evalInOrder (u : Setup) (s : Setting) (result : IdSet) : List Expr → EvalM IdSet
  | [] => return result
  | e :: es => do
    let ids ← u.eval s e
    u.evalInOrder s ids es

end

/-- The set that an expression denotes if no variable is bound, and what was reported. -/
def evaluate (u : Setup) (s : Setting) (e : Expr) : Except EvalError IdSet × Trace :=
  let (answer, st) := (u.eval s e).run ⟨.empty, []⟩
  (answer, st.trace)

end Setup

end ImportQuery
