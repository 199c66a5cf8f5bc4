import ImportQuery.Graph.Traversal

/-!
# Functions

The functions that a query can call, on sets of packages. Their names may be written in capitals. A
list is the function without a name.
-/

namespace ImportQuery

/-- How many arguments a function takes. -/
inductive Arity
  | exactly (n : Nat)
  | atLeast (n : Nat)
  deriving DecidableEq, Repr

namespace Arity

/-- So many arguments are as many as they should be. -/
def admits : Arity → Nat → Bool
  | exactly n, found => found == n
  | atLeast n, found => n ≤ found

/-- How messages name an arity. -/
def describe : Arity → String
  | exactly n => s!"{n}"
  | atLeast n => s!"at least {n}"

end Arity

/-- The functions. -/
inductive GraphFunction
  /-- The union of the arguments. -/
  | list
  /-- The packages of the first argument that reach one of the second. -/
  | reach
  /-- The packages of the first argument that import one of the second. -/
  | incoming
  /-- All that the argument imports, directly or not. -/
  | deps
  /-- What is in every argument. -/
  | shared
  /-- What is in exactly one of two arguments. -/
  | xor
  deriving DecidableEq, Repr

namespace GraphFunction

/-- The function with the given name, whatever the case of its ASCII letters. -/
def ofName? (name : String) : Option GraphFunction :=
  match String.ofList (name.toList.map Char.toLower) with
  | "" => some list
  | "reach" | "reaches" => some reach
  | "incoming" => some incoming
  | "deps" => some deps
  | "shared" => some shared
  | "xor" => some xor
  | _ => none

/-- The number of arguments of a function. -/
def arity : GraphFunction → Arity
  | list => .atLeast 0
  | reach | incoming | xor => .exactly 2
  | deps => .exactly 1
  | shared => .atLeast 2

/-- What a function selects from a graph, for as many arguments as it takes. -/
def apply (f : GraphFunction) (g : Graph) (s : Setting) (args : List IdSet) : IdSet :=
  match f, args with
  | list, sets => .unions sets
  | reach, [sources, targets] => g.reaching s sources targets
  | incoming, [sources, targets] => sources.filter fun id => (g.imports id).any targets.contains
  | deps, [start] => g.dependencies s start
  | shared, first :: sets => sets.foldl (· ∩ ·) first
  | xor, [a, b] => a.symmDiff b
  | _, _ => ∅

end GraphFunction

end ImportQuery
