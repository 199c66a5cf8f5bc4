import ImportQuery.Expr.Basic

/-!
# Expressions as text

Two ways to write an expression.

* `render` : the canonical form, one spelling for every expression in the language of queries
  itself. Operators stand before their operands, lists are in parentheses, and white space follows
  only commas, semicolons and an assignment sign.
* `tree` : the outline, a line for every node, above the lines of its children, which are indented
  by two more spaces.
-/

namespace ImportQuery.Expr

/-! ## Canonical form -/

mutual

/-- The canonical form of an expression. -/
def render : Expr → String
  | package name => name
  | selected base tags => base.render ++ String.join (tags.map (":" ++ ·))
  | binary op left right =>
    op.symbol.toString ++ "(" ++ left.render ++ ", " ++ right.render ++ ")"
  | call name args => name ++ "(" ++ renderJoined ", " args ++ ")"
  | assign name value => name ++ " := " ++ value.render
  | program statements => renderJoined "; " statements

/-- The canonical forms of a list of expressions, with `separator` between neighbours. -/
def renderJoined (separator : String) : List Expr → String
  | [] => ""
  | [e] => e.render
  | e :: es => e.render ++ separator ++ renderJoined separator es

end

/-! ## Outlines -/

/-- A line of an outline: how deep the node lies below the root, and what it is. -/
structure OutlineLine where
  level : Nat
  label : String
  deriving DecidableEq, Repr

/-- The text of a line, with its end. -/
def OutlineLine.text (l : OutlineLine) : String :=
  String.join (List.replicate l.level "  ") ++ l.label ++ "\n"

/-- What a line says about its node. -/
def label : Expr → String
  | package name => "Package " ++ name
  | selected _ tags => "Selected " ++ String.join (tags.map (":" ++ ·))
  | binary .union .. => "Union"
  | binary .difference .. => "Difference"
  | call "" _ => "List"
  | call name _ => "Call " ++ name
  | assign name _ => "Assign " ++ name
  | program _ => "Program"

mutual

/-- The lines of an expression whose root lies at `level`. -/
def outline (level : Nat) : Expr → List OutlineLine
  | package name => [⟨level, label (package name)⟩]
  | selected base tags => ⟨level, label (selected base tags)⟩ :: outline (level + 1) base
  | binary op left right =>
    ⟨level, label (binary op left right)⟩ ::
      (outline (level + 1) left ++ outline (level + 1) right)
  | call name args => ⟨level, label (call name args)⟩ :: outlines (level + 1) args
  | assign name value => ⟨level, label (assign name value)⟩ :: outline (level + 1) value
  | program statements => ⟨level, label (program statements)⟩ :: outlines (level + 1) statements

/-- The lines of a list of expressions whose roots lie at `level`. -/
def outlines (level : Nat) : List Expr → List OutlineLine
  | [] => []
  | e :: es => outline level e ++ outlines level es

end

/-- The outline of an expression as text. -/
def tree (e : Expr) : String := String.join ((outline 0 e).map OutlineLine.text)

end ImportQuery.Expr
