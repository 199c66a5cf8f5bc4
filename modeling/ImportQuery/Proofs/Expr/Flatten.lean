import ImportQuery.Expr.Render

/-!
# Merging selectors

The canonical form does not show where selectors behind a group end: `(a:x):y` is written `a:x:y`.
`flatten` makes the same trees of such expressions, and changes nothing else. `brackets` counts the
parentheses that the canonical form opens inside each other.

* `render_flatten` : merging selectors does not change the canonical form.
-/

namespace ImportQuery.Expr

/-- The expression with more selectors behind those that it has already. -/
def select : Expr → List String → Expr
  | selected base tags, more => selected base (tags ++ more)
  | e, more => selected e more

mutual

/-- The expression with nested selectors merged everywhere. -/
def flatten : Expr → Expr
  | package name => package name
  | selected base tags => base.flatten.select tags
  | binary op left right => binary op left.flatten right.flatten
  | call name args => call name (flattenAll args)
  | assign name value => assign name value.flatten
  | program statements => program (flattenAll statements)

/-- The expressions with nested selectors merged. -/
def flattenAll : List Expr → List Expr
  | [] => []
  | e :: es => e.flatten :: flattenAll es

end

mutual

/-- The largest number of calls and operators on a path from the root to a leaf. -/
def brackets : Expr → Nat
  | package _ => 0
  | selected base _ => base.brackets
  | binary _ left right => max left.brackets right.brackets + 1
  | call _ args => mostBrackets args + 1
  | assign _ value => value.brackets
  | program statements => mostBrackets statements

/-- The largest number of calls and operators on a path in some trees. -/
def mostBrackets : List Expr → Nat
  | [] => 0
  | e :: es => max e.brackets (mostBrackets es)

end

theorem flattenAll_eq_map (es : List Expr) : flattenAll es = es.map flatten := by
  induction es with
  | nil => rfl
  | cons e es ih => rw [flattenAll, ih, List.map_cons]

theorem mostBrackets_le_iff {es : List Expr} {n : Nat} :
    mostBrackets es ≤ n ↔ ∀ e ∈ es, e.brackets ≤ n := by
  induction es with
  | nil => simp [mostBrackets]
  | cons e es ih => rw [mostBrackets, Nat.max_le, ih, List.forall_mem_cons]

/-! ## The canonical form -/

theorem renderJoined_cons_cons (separator : String) (e e' : Expr) (es : List Expr) :
    renderJoined separator (e :: e' :: es) =
      e.render ++ separator ++ renderJoined separator (e' :: es) := rfl

theorem render_select (e : Expr) (tags : List String) :
    (e.select tags).render = e.render ++ String.join (tags.map (":" ++ ·)) := by
  cases e with
  | selected base inner =>
    simp only [select, render, List.map_append, String.join_append, String.append_assoc]
  | package | binary | call | assign | program => rfl

mutual

/-- Merging selectors does not change the canonical form. -/
theorem render_flatten (e : Expr) : e.flatten.render = e.render := by
  cases e with
  | package name => rfl
  | selected base tags => rw [flatten, render_select, base.render_flatten, render]
  | binary op left right =>
    rw [flatten, render, render, left.render_flatten, right.render_flatten]
  | call name args => rw [flatten, render, render, renderJoined_flattenAll]
  | assign name value => rw [flatten, render, render, value.render_flatten]
  | program statements => rw [flatten, render, render, renderJoined_flattenAll]

theorem renderJoined_flattenAll (separator : String) (es : List Expr) :
    renderJoined separator (flattenAll es) = renderJoined separator es := by
  cases es with
  | nil => rfl
  | cons e es =>
    have ih := renderJoined_flattenAll separator es
    cases es with
    | nil => exact e.render_flatten
    | cons e' es =>
      rw [flattenAll] at ih ⊢
      rw [flattenAll, renderJoined_cons_cons, renderJoined_cons_cons, e.render_flatten, ih]

end

end ImportQuery.Expr
