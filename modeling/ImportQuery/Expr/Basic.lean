/-!
# Query expressions

The tree of a query. An expression denotes a set of packages: a package or a pattern, a base with
a chain of selectors, a union or a difference, or a call. A call without a name is a list, the
union of its items. An assignment binds a name to a set, and a program is a sequence of statements
of which only the last need not be an assignment.

The height of an expression is found with a list of pending subexpressions, so that no tree is too
deep for it; the list ends because the number of nodes in it falls (`Expr.size_eq`).
-/

namespace ImportQuery

/-- The operators on sets. -/
inductive SetOp
  | union
  | difference
  deriving DecidableEq, Repr

namespace SetOp

/-- The operator that a token names. -/
def ofSymbol? : String → Option SetOp
  | "+" => some .union
  | "-" => some .difference
  | _ => none

/-- The character of an operator. -/
def symbol : SetOp → Char
  | .union => '+'
  | .difference => '-'

end SetOp

/-- The tree of a query. -/
inductive Expr
  /-- The path of a package, a pattern, or a variable. -/
  | package (name : String)
  /-- A base and the tags of its selectors, with their signs, from the first to the last. -/
  | selected (base : Expr) (tags : List String)
  | binary (op : SetOp) (left right : Expr)
  /-- The call of a function; without a name, the list of the arguments. -/
  | call (name : String) (args : List Expr)
  | assign (name : String) (value : Expr)
  /-- Statements, in order. -/
  | program (statements : List Expr)
  deriving Inhabited, Repr

namespace Expr

/-- The expression binds a name. -/
def isAssignment : Expr → Bool
  | assign .. => true
  | _ => false

/-- The expressions one level below. -/
def children : Expr → List Expr
  | package _ => []
  | selected base _ => [base]
  | binary _ left right => [left, right]
  | call _ args => args
  | assign _ value => [value]
  | program statements => statements

mutual

/-- The number of nodes of the tree. -/
def size : Expr → Nat
  | package _ => 1
  | selected base _ => 1 + base.size
  | binary _ left right => 1 + (left.size + right.size)
  | call _ args => 1 + sizes args
  | assign _ value => 1 + value.size
  | program statements => 1 + sizes statements

/-- The number of nodes of a list of trees. -/
def sizes : List Expr → Nat
  | [] => 0
  | e :: es => e.size + sizes es

end

theorem sizes_append (es fs : List Expr) : sizes (es ++ fs) = sizes es + sizes fs := by
  induction es with
  | nil => simp [sizes]
  | cons e es ih => simp [sizes, ih, Nat.add_assoc]

theorem size_eq (e : Expr) : e.size = 1 + sizes e.children := by
  cases e <;> simp [size, sizes, children]

/-! ## Height -/

/-- The largest level of `pending` and of all below it, or `best` if that is larger. Each pending
expression comes with its own level. -/
def tallest (best : Nat) : List (Expr × Nat) → Nat
  | [] => best
  | (e, level) :: pending =>
    tallest (max best level) (e.children.map (·, level + 1) ++ pending)
  termination_by pending => sizes (pending.map (·.1))
  decreasing_by
    simp only [List.map_append, List.map_map, List.map_cons, sizes_append, sizes, size_eq]
    rw [show ((·.1) ∘ (·, level + 1) : Expr → Expr) = id from rfl, List.map_id]
    omega

/-- The number of levels of the tree, the root included. -/
def height (e : Expr) : Nat := tallest 0 [(e, 1)]

end Expr

end ImportQuery
