import ImportQuery.Proofs.Eval.OwnNames
import ImportQuery.Proofs.Statements

/-!
# Inlining a variable

A variable holds a set that has been found once, under the settings in force at the assignment. Its
definition can take its place wherever the same settings are in force: the definition finds the same
set there again, and as often as it is needed, because it binds nothing itself.

* `Expr.inline` : an expression with a definition in the place of a word.
* `Expr.Inlinable` : the word stands in no call that changes a setting.
* `Setup.relates_inline` : the variable bound, and the definition in its place.
* `Session.eval_inline` : the same for an assignment and the statement behind it.
-/

namespace ImportQuery

namespace Expr

/-! ## Words and definitions -/

variable {q : String} {value e : Expr}

mutual

/-- The expression with `value` in the place of every word `q`. -/
def inline : Expr → String → Expr → Expr
  | package name, q, value => if name = q then value else package name
  | selected base tags, q, value => selected (base.inline q value) tags
  | binary op left right, q, value => binary op (left.inline q value) (right.inline q value)
  | call name args, q, value => call name (inlineAll args q value)
  | assign name e, q, value => assign name (e.inline q value)
  | program statements, q, value => program (inlineAll statements q value)

/-- The expressions with `value` in the place of every word `q`. -/
def inlineAll : List Expr → String → Expr → List Expr
  | [], _, _ => []
  | e :: es, q, value => e.inline q value :: inlineAll es q value

end

theorem inlineAll_eq_map (es : List Expr) : inlineAll es q value = es.map (·.inline q value) := by
  induction es with
  | nil => rfl
  | cons e es ih => rw [inlineAll, ih, List.map_cons]

theorem forall₂_inlineAll {P : Expr → Expr → Prop} {es : List Expr}
    (h : ∀ e ∈ es, P e (e.inline q value)) : List.Forall₂ P es (inlineAll es q value) := by
  rw [inlineAll_eq_map, List.forall₂_map_right_iff, List.forall₂_same]
  exact h

end Expr

/-- The expressions without assignments and without the word `q`. -/
def Fragment.besides (q : String) : Fragment := { Fragment.assignmentFree with word := (· ≠ q) }

namespace Expr

variable {q : String} {value e : Expr}

/-- Nothing is assigned in the expression, and the word `q` stands in no call that changes a
setting. -/
inductive Inlinable (q : String) : Expr → Prop
  | package (name : String) : Inlinable q (.package name)
  | selected {base : Expr} {tags : List String} (hbase : Inlinable q base) :
    Inlinable q (.selected base tags)
  | binary {op : SetOp} {left right : Expr} (hleft : Inlinable q left)
    (hright : Inlinable q right) : Inlinable q (.binary op left right)
  | setting {name key value : String} {args : List Expr}
    (hname : splitSetting? name = some (key, value)) (hargs : ∀ e ∈ args, e.Within (.besides q)) :
    Inlinable q (.call name args)
  | function {name : String} {args : List Expr} (hname : splitSetting? name = none)
    (hargs : ∀ e ∈ args, Inlinable q e) : Inlinable q (.call name args)
  | program {statements : List Expr} (h : ∀ e ∈ statements, Inlinable q e) :
    Inlinable q (.program statements)

/-- Where the word does not occur, nothing changes. -/
theorem Within.inline_eq (h : e.Within (.besides q)) : e.inline q value = e := by
  induction h with
  | package hname => rw [inline, if_neg hname]
  | selected _ _ ih => rw [inline, ih]
  | binary _ _ _ ihleft ihright => rw [inline, ihleft, ihright]
  | call _ _ ih => rw [inline, inlineAll_eq_map, List.map_congr_left ih, List.map_id']
  | assign hname => exact hname.elim
  | program _ ih => rw [inline, inlineAll_eq_map, List.map_congr_left ih, List.map_id']

end Expr

/-! ## Evaluation -/

namespace Setup

open EvalM

variable {u : Setup} {s : Setting} {sc : Scope} {q : String} {value e : Expr} {ids : IdSet}

/-- A variable makes no difference where it does not occur. -/
theorem simulation_besides (u : Setup) (sc : Scope) (q : String) (ids : IdSet) :
    Simulation (.besides q) u u Eq Eq fun sc₁ sc₂ => sc₁ = sc.bind q ids ∧ sc₂ = sc := by
  refine .self ?_ fun _ _ _ _ htarget => htarget.elim
  rintro name _ _ hname ⟨rfl, rfl⟩
  rw [Scope.get?_bind, if_neg hname]

/-- **What a variable is bound to, and the definition in its place**, make no difference either. -/
theorem relates_inline (hvalue : Gives sc (u.eval s value) ids) (h : e.Inlinable q) :
    Relates (fun sc₁ sc₂ => sc₁ = sc.bind q ids ∧ sc₂ = sc) Eq (u.eval s e)
      (u.eval s (e.inline q value)) := by
  have hsim := simulation_besides u sc q ids
  induction h with
  | package name =>
    rw [Expr.inline]
    split
    · rename_i hname
      subst hname
      have hbound : Gives (sc.bind name ids) (u.resolve s name) ids :=
        gives_resolve (by rw [Scope.get?_bind, if_pos rfl])
      exact relates_of_gives hbound hvalue rfl
    · rename_i hname
      exact hsim.eval (.package hname) rfl
  | selected _ ih =>
    rw [Expr.inline, eval, eval]
    exact ih.bind fun _ _ hab => hsim.select_tags rfl (fun _ _ => trivial) hab
  | binary _ _ ihleft ihright =>
    rw [Expr.inline, eval, eval]
    exact ihleft.bind fun _ _ hab => ihright.bind fun _ _ hab' =>
      relates_pure (hsim.op trivial hab hab')
  | @setting name key value args _ hargs =>
    have hcall : (Expr.call name args).Within (.besides q) := .call trivial hargs
    rw [hcall.inline_eq]
    exact hsim.eval hcall rfl
  | function hname _ ih =>
    rw [Expr.inline]
    exact hsim.eval_function trivial hname rfl (Expr.forall₂_inlineAll ih)
  | program _ ih =>
    rw [Expr.inline, eval, eval]
    exact Simulation.evalInOrder (Expr.forall₂_inlineAll ih) rfl

end Setup

namespace Session

variable {σ : Session} {strict : Bool} {s : Setting} {q : String} {e body : Expr} {ids : IdSet}

theorem eval_assign {scope : Scope} (h : σ.eval strict s e = (.ok ids, scope)) (q : String) :
    σ.eval strict s (.assign q e) = (.ok ids, scope.bind q ids) := by
  rw [eval] at h ⊢
  rw [Setup.eval, run_bind]
  rcases hrun : (Setup.eval ⟨σ.graph, strict⟩ s e).run ⟨σ.scope, []⟩ with ⟨answer, st⟩
  rw [hrun] at h
  cases h
  rfl

/-- **A variable can be inlined wherever no setting intervenes.** Let `e` be an expression without
assignments that can be evaluated, and `body` another one in which the word `q` stands in no call
that changes a setting. Then `q := e; body` gives the same result, or fails with the same error, as
`body` with `e` in the place of every `q`. The one leaves `q` bound, and the other binds nothing. -/
theorem eval_inline (he : e.Within .assignmentFree) (hids : (σ.eval strict s e).1 = .ok ids)
    (hbody : body.Inlinable q) :
    (σ.eval strict s (.program [.assign q e, body])).1 = (σ.eval strict s (body.inline q e)).1 ∧
      (σ.eval strict s (.program [.assign q e, body])).2 = σ.scope.bind q ids ∧
      (σ.eval strict s (body.inline q e)).2 = σ.scope := by
  have hvalue : EvalM.Gives σ.scope (Setup.eval ⟨σ.graph, strict⟩ s e) ids :=
    Setup.gives_of_eval he hids
  have hprogram : σ.eval strict s (.program [.assign q e, body]) =
      eval { σ with scope := σ.scope.bind q ids } strict s body := by
    rw [eval_program, evalInTurn, eval_assign (eval_of_gives hvalue) q]
    rfl
  obtain ⟨halike, hscope, hscope'⟩ := Setup.relates_inline hvalue hbody
    ⟨σ.scope.bind q ids, []⟩ ⟨σ.scope, []⟩ ⟨rfl, rfl⟩
  rw [hprogram]
  exact ⟨eq_of_alike halike, hscope, hscope'⟩

/-- A session with a variable. -/
def namedTool : Session := ⟨.testedPackage, Scope.empty.bind "q" (.ofList ["tool"])⟩

/-- The definition has a setting of its own and the old value of the variable in it. -/
theorem eval_inline_namedTool :
    (Expr.call "test=1" [.selected (.package "q") ["all"]]).Within .assignmentFree ∧
    (namedTool.eval true ⟨false⟩ (.call "test=1" [.selected (.package "q") ["all"]])).1 =
      .ok (.ofList ["lib", "lib.test", "tool"]) ∧
    (Expr.binary .difference (.package "q") (.call "test=0" [.package "lib"])).Inlinable "q" ∧
    (namedTool.eval true ⟨false⟩ (.program [
      .assign "q" (.call "test=1" [.selected (.package "q") ["all"]]),
      .binary .difference (.package "q") (.call "test=0" [.package "lib"])])).1 =
        .ok (.ofList ["lib.test", "tool"]) := by
  have he : (Expr.call "test=1" [.selected (.package "q") ["all"]]).Within .assignmentFree :=
    .call trivial (List.forall_mem_singleton.2 (.selected (.package trivial) fun _ _ => trivial))
  have hids : (namedTool.eval true ⟨false⟩
      (.call "test=1" [.selected (.package "q") ["all"]])).1 =
        .ok (.ofList ["lib", "lib.test", "tool"]) := by decide +kernel
  have hbody : (Expr.binary .difference (.package "q")
      (.call "test=0" [.package "lib"])).Inlinable "q" := by
    have hsplit : splitSetting? "test=0" = some ("test", "0") := by decide +kernel
    have hother : "lib" ≠ "q" := by decide
    exact .binary (.package "q") (.setting hsplit (List.forall_mem_singleton.2 (.package hother)))
  refine ⟨he, hids, hbody, ?_⟩
  rw [(eval_inline he hids hbody).1]
  decide +kernel

-- a setting that intervenes does not reach the definition once it has been evaluated
example :
    (namedTool.eval true ⟨false⟩ (.program [.assign "r" (.selected (.package "lib") ["importer"]),
      .call "test=1" [.package "r"]])).1 ≠
    (namedTool.eval true ⟨false⟩ (.call "test=1" [.selected (.package "lib") ["importer"]])).1 := by
  decide +kernel

end Session

end ImportQuery
