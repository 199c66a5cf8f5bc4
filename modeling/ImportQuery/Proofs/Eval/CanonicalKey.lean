import ImportQuery.Eval.Basic
import ImportQuery.Graph.Edit
import ImportQuery.Proofs.RoundTrip

/-!
# The canonical form as a key

Queries with the same canonical form have the same trees, except for merged selectors, and merged
selectors select the same. So whatever is computed from a query can be kept under its canonical
form.

* `flatten_eq_of_render_eq` : the canonical form determines the tree with merged selectors.
* `Setup.eval_flatten` : merging selectors does not change what an expression denotes.
-/

namespace ImportQuery

open ImportQuery.Expr

/-! ## The tree in the canonical form -/

/-- The canonical form determines the tree with merged selectors, also where it nests too deeply to
be read back: the grammar with a higher limit derives both trees. -/
theorem Expr.flatten_eq_of_render_eq {e e' : Expr} (h : e.IsQuery) (h' : e'.IsQuery)
    (hrender : e.render = e'.render) : e.flatten = e'.flatten := by
  have hspells := h'.spells_render
  rw [← hrender] at hspells
  have htokens : e.tokens = e'.tokens := h.spells_render.unique hspells
  have hleft := h.derivesProgram_tokens (Nat.le_max_left e.brackets e'.brackets)
  have hright := h'.derivesProgram_tokens (Nat.le_max_right e.brackets e'.brackets)
  rw [htokens] at hleft
  exact hleft.unique hright

/-! ## Evaluation -/

namespace Setup

variable (u : Setup)

theorem eval_select (s : Setting) (e : Expr) (tags : List String) :
    u.eval s (e.select tags) = (do
      let ids ← u.eval s e
      tags.foldlM (u.graph.select s) ids) := by
  cases e with
  | selected base inner =>
    rw [select, eval, eval, bind_assoc]
    refine bind_congr fun ids => ?_
    rw [List.foldlM_append]
  | package | binary | call | assign | program => rfl

mutual

/-- Merging selectors does not change what an expression denotes, nor what is bound and reported on
the way. -/
theorem eval_flatten (s : Setting) (e : Expr) : u.eval s e.flatten = u.eval s e := by
  cases e with
  | package name => rfl
  | selected base tags => rw [flatten, eval_select, eval, eval_flatten s base]
  | binary op left right =>
    rw [flatten, eval, eval, eval_flatten s left, eval_flatten s right]
  | call name args =>
    have hlength : (flattenAll args).length = args.length := by
      rw [flattenAll_eq_map, List.length_map]
    have hargs : ∀ s, u.evalEach s (flattenAll args) = u.evalEach s args :=
      fun s => evalEach_flattenAll s args
    simp only [flatten, eval, hlength, hargs]
  | assign name value => rw [flatten, eval, eval, eval_flatten s value]
  | program statements => rw [flatten, eval, eval, evalInOrder_flattenAll]

theorem evalEach_flattenAll (s : Setting) (es : List Expr) :
    u.evalEach s (flattenAll es) = u.evalEach s es := by
  cases es with
  | nil => rfl
  | cons e es => rw [flattenAll, evalEach, evalEach, eval_flatten s e, evalEach_flattenAll s es]

theorem evalInOrder_flattenAll (s : Setting) (result : IdSet) (es : List Expr) :
    u.evalInOrder s result (flattenAll es) = u.evalInOrder s result es := by
  cases es with
  | nil => rfl
  | cons e es =>
    rw [flattenAll, evalInOrder, evalInOrder, eval_flatten s e]
    refine bind_congr fun ids => ?_
    exact evalInOrder_flattenAll s ids es

end

end Setup

/-- **The canonical form is a sound key.** Two queries with the same canonical form evaluate alike,
with the same result or error, the same bindings and the same reports, on every graph, with every
setting and from every state. -/
theorem eval_eq_of_render_eq {query query' : String} {e e' : Expr}
    (h : compile query = .ok (some e)) (h' : compile query' = .ok (some e'))
    (hrender : e.render = e'.render) (u : Setup) (s : Setting) (st : EvalState) :
    (u.eval s e).run st = (u.eval s e').run st := by
  have hflatten := flatten_eq_of_render_eq (isQuery_of_compile h) (isQuery_of_compile h') hrender
  rw [← u.eval_flatten s e, hflatten, u.eval_flatten s e']

/-- A package that imports a test variant of it. -/
def packageWithVariant : Graph :=
  .ofEdits [.addNode ⟨"a", true, none⟩, .addNode ⟨"b", false, some "a"⟩, .addImport "a" "b"]

theorem eval_group_eq :
    compile "(a:import):+test" =
      .ok (some (.selected (.selected (.package "a") ["import"]) ["+test"])) ∧
    compile "a:import:+test" = .ok (some (.selected (.package "a") ["import", "+test"])) ∧
    (Setup.eval ⟨packageWithVariant, true⟩ ⟨true⟩
      (.selected (.selected (.package "a") ["import"]) ["+test"])).run ⟨.empty, []⟩ =
    (Setup.eval ⟨packageWithVariant, true⟩ ⟨true⟩
      (.selected (.package "a") ["import", "+test"])).run ⟨.empty, []⟩ := by
  have hgroup : compile "(a:import):+test" =
      .ok (some (.selected (.selected (.package "a") ["import"]) ["+test"])) :=
    compile_of_tokens [⟨.openParen, "("⟩, ⟨.package, "a"⟩, ⟨.selector, "import"⟩,
      ⟨.closeParen, ")"⟩, ⟨.selector, "+test"⟩] (by decide +kernel) rfl
  have hkey : (Expr.selected (.selected (.package "a") ["import"]) ["+test"]).render =
      "a:import:+test" := by decide
  have hchain := compile_render_of_le (isQuery_of_compile hgroup) (by decide)
  rw [hkey] at hchain
  have hrender : (Expr.selected (.selected (.package "a") ["import"]) ["+test"]).render =
      (Expr.selected (.package "a") ["import", "+test"]).render := (render_flatten _).symm
  exact ⟨hgroup, hchain, eval_eq_of_render_eq hgroup hchain hrender _ _ _⟩

end ImportQuery
