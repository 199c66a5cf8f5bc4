import ImportQuery.Proofs.Eval.Simulation
import ImportQuery.Session
import Mathlib.Data.Set.Insert

/-!
# The variables that an expression touches

An evaluation binds the names that are assigned to in the expression, and reads the values of its
words. All other variables keep their values and have no influence, whether the evaluation succeeds
or fails on the way, and wherever in the expression the assignments stand.

* `EvalM.Gives` : an evaluation comes to a set and binds nothing.
* `Setup.gives_of_eval` : an expression without assignments that can be evaluated does so.
* `Setup.simulation_agreeOn` : evaluations from scopes that agree on the words agree.
* `Session.eval_ownNames` : what an expression in a session changes, and what it depends on.
-/

namespace ImportQuery

variable {sc sc' : Scope}

/-! ## Evaluations that bind nothing -/

namespace EvalM

variable {α β : Type} {m : EvalM α} {n : EvalM β} {f : α → EvalM β} {a : α} {b : β}

/-- From every state with these variables, the evaluation comes to `a` and leaves the variables as
they are. -/
def Gives (sc : Scope) (m : EvalM α) (a : α) : Prop :=
  ∀ st : EvalState, st.scope = sc → (m.run st).1 = .ok a ∧ (m.run st).2.scope = sc

theorem gives_pure (a : α) : Gives sc (pure a) a := fun _ h => ⟨rfl, h⟩

theorem gives_report (event : Event) : Gives sc (report event) () := fun _ h => ⟨rfl, h⟩

theorem Gives.bind (h : Gives sc m a) (h' : Gives sc (f a) b) : Gives sc (m >>= f) b := by
  intro st hst
  obtain ⟨hvalue, hscope⟩ := h st hst
  have hrun : m.run st = (.ok a, (m.run st).2) := Prod.ext hvalue rfl
  rw [run_bind_ok hrun]
  exact h' _ hscope

/-- What a variable is bound to is the value of the word. -/
theorem gives_resolve {u : Setup} {s : Setting} {name : String} {ids : IdSet}
    (h : sc.get? name = some ids) : Gives sc (u.resolve s name) ids := by
  rintro st rfl
  rw [Setup.run_resolve, h]
  exact ⟨rfl, rfl⟩

theorem relates_of_gives {P : α → β → Prop} (h : Gives sc m a) (h' : Gives sc' n b)
    (hab : P a b) : Relates (fun x y => x = sc ∧ y = sc') P m n := by
  rintro st st' ⟨hst, hst'⟩
  obtain ⟨hvalue, hscope⟩ := h st hst
  obtain ⟨hvalue', hscope'⟩ := h' st' hst'
  rw [hvalue, hvalue']
  exact ⟨.ok hab, hscope, hscope'⟩

/-- What does not depend on the variables can take the place of the value that it gives. -/
theorem relates_pure_of_gives (h : ∀ sc, Gives sc m a) : Relates Eq Eq (pure a) m := by
  rintro st st' hst
  obtain ⟨hvalue, hscope⟩ := h st'.scope st' rfl
  rw [hvalue, hscope]
  exact ⟨.ok rfl, hst⟩

/-- A report comes to nothing. -/
theorem Relates.report_bind {R : Scope → Scope → Prop} {P : β → α → Prop} {event : Event}
    (h : Relates R P n m) : Relates R P (report event >>= fun _ => n) m := by
  intro st st' hst
  rw [run_bind_ok (run_report event st)]
  exact h (st.record event) st' hst

end EvalM

/-- The expressions without assignments. -/
def Fragment.assignmentFree : Fragment := { Fragment.whole with target := fun _ => False }

namespace Setup

/-- Without assignments the variables stay as they are. -/
theorem simulation_assignmentFree (u : Setup) (sc : Scope) :
    Simulation .assignmentFree u u Eq Eq fun sc₁ sc₂ => sc₁ = sc ∧ sc₂ = sc :=
  .self (fun _ _ _ _ h => by rw [h.1, h.2]) fun _ _ _ _ htarget => htarget.elim

/-- An expression without assignments that succeeds once gives the same whenever the variables are
the same. -/
theorem gives_of_eval {u : Setup} {s : Setting} {e : Expr} {ids : IdSet} {st : EvalState}
    (he : e.Within .assignmentFree) (h : ((u.eval s e).run st).1 = .ok ids) :
    EvalM.Gives st.scope (u.eval s e) ids := by
  intro st' hst'
  obtain ⟨halike, hscope, -⟩ :=
    (simulation_assignmentFree u st.scope).eval he (rfl : s = s) st' st ⟨hst', rfl⟩
  exact ⟨(eq_of_alike halike).trans h, hscope⟩

end Setup

theorem Session.eval_of_gives {σ : Session} {strict : Bool} {s : Setting} {e : Expr} {ids : IdSet}
    (h : EvalM.Gives σ.scope (Setup.eval ⟨σ.graph, strict⟩ s e) ids) :
    σ.eval strict s e = (.ok ids, σ.scope) := by
  obtain ⟨hvalue, hscope⟩ := h ⟨σ.scope, []⟩ rfl
  exact Prod.ext hvalue hscope

/-- What a simulation says about two sessions. -/
theorem Session.related_eval {F : Fragment} {S : Setting → Setting → Prop}
    {P : IdSet → IdSet → Prop} {R : Scope → Scope → Prop} (σ σ' : Session) {strict strict' : Bool}
    {s s' : Setting} {e : Expr}
    (h : Simulation F ⟨σ.graph, strict⟩ ⟨σ'.graph, strict'⟩ S P R) (he : e.Within F) (hs : S s s')
    (hscope : R σ.scope σ'.scope) :
    Alike P (σ.eval strict s e).1 (σ'.eval strict' s' e).1 ∧
      R (σ.eval strict s e).2 (σ'.eval strict' s' e).2 :=
  h.eval he hs ⟨σ.scope, []⟩ ⟨σ'.scope, []⟩ hscope

/-! ## Scopes that agree -/

/-- The names in `N` have the same values in both scopes, or no value in either. -/
def Scope.AgreeOn (N : Set String) (sc sc' : Scope) : Prop :=
  ∀ name ∈ N, sc.get? name = sc'.get? name

theorem Scope.AgreeOn.bind {N : Set String} (h : AgreeOn N sc sc') (name : String) (ids : IdSet) :
    AgreeOn N (sc.bind name ids) (sc'.bind name ids) := by
  intro x hx
  rw [get?_bind, get?_bind, h x hx]

/-- The expressions whose words are all in `N`. -/
def Fragment.reading (N : Set String) : Fragment := { Fragment.whole with word := (· ∈ N) }

/-- The expressions that do not assign to `x`. -/
def Fragment.sparing (x : String) : Fragment := { Fragment.whole with target := (· ≠ x) }

namespace Setup

variable (u : Setup)

/-- Evaluations from scopes that agree on the words of the expression give the same, and the scopes
that they leave agree again. -/
theorem simulation_agreeOn (N : Set String) :
    Simulation (.reading N) u u Eq Eq (Scope.AgreeOn N) :=
  .self (fun name _ _ hname h => h name hname) fun name ids _ _ _ h => h.bind name ids

/-- A name that is not assigned to keeps its value. -/
theorem simulation_sparing (x : String) (value : Option IdSet) :
    Simulation (.sparing x) u u Eq Eq fun sc sc' => sc = sc' ∧ sc.get? x = value := by
  refine .self (fun _ _ _ _ h => by rw [h.1]) ?_
  rintro name ids sc _ hname ⟨rfl, hvalue⟩
  refine ⟨rfl, ?_⟩
  rw [Scope.get?_bind, if_neg (Ne.symm hname)]
  exact hvalue

end Setup

namespace Session

/-- **An evaluation touches only its own names.** Whether it succeeds or fails, a name to which the
expression does not assign has the value afterwards that it had before; and if two scopes agree on
some names, of which every word of the expression is one, then the result is the same with both, or
the error, and the scopes that are left agree on these names again. -/
theorem eval_ownNames (σ : Session) (strict : Bool) (s : Setting) (e : Expr) :
    (∀ x, e.Within (.sparing x) → (σ.eval strict s e).2.get? x = σ.scope.get? x) ∧
    ∀ N scope, e.Within (.reading N) → σ.scope.AgreeOn N scope →
      (σ.eval strict s e).1 = (eval { σ with scope } strict s e).1 ∧
      (σ.eval strict s e).2.AgreeOn N (eval { σ with scope } strict s e).2 := by
  constructor
  · intro x he
    have hsim := Setup.simulation_sparing ⟨σ.graph, strict⟩ x (σ.scope.get? x)
    obtain ⟨-, -, hvalue⟩ := related_eval σ σ hsim he rfl ⟨rfl, rfl⟩
    exact hvalue
  · intro N scope he hagree
    have hsim := Setup.simulation_agreeOn ⟨σ.graph, strict⟩ N
    obtain ⟨halike, hscope⟩ := related_eval σ { σ with scope } hsim he rfl hagree
    exact ⟨eq_of_alike halike, hscope⟩

/-- An assignment in an operand, and then a word that names nothing. -/
def assigningOperands : Expr :=
  .program [.assign "t" (.binary .difference (.assign "u" (.package "..."))
    (.selected (.package "u") ["-main"])), .package "gone"]

/-- The failure undoes neither assignment and changes nothing else, and the value of `t` before them
has no influence. -/
theorem eval_ownNames_assigningOperands :
    assigningOperands.Within (.sparing "lib") ∧
    assigningOperands.Within (.reading {"...", "u", "gone"}) ∧
    (Scope.empty.bind "lib" ∅).AgreeOn {"...", "u", "gone"} (Scope.empty.bind "t" ∅) ∧
    (eval ⟨.testedPackage, Scope.empty.bind "lib" ∅⟩ true ⟨false⟩ assigningOperands).2.get? "lib" =
      some ∅ ∧
    (eval ⟨.testedPackage, Scope.empty.bind "t" ∅⟩ true ⟨false⟩ assigningOperands).1 =
      .error (.unresolvedPackage "gone") ∧
    (eval ⟨.testedPackage, Scope.empty.bind "t" ∅⟩ true ⟨false⟩ assigningOperands).2.get? "u" =
      some (.ofList ["lib", "tool"]) := by
  have hsparing : assigningOperands.Within (.sparing "lib") := by
    refine .program (List.forall_mem_cons.2 ⟨?_, List.forall_mem_singleton.2 (.package trivial)⟩)
    have ht : "t" ≠ "lib" := by decide
    have hu : "u" ≠ "lib" := by decide
    exact .assign ht (.binary trivial (.assign hu (.package trivial))
      (.selected (.package trivial) fun _ _ => trivial))
  have hreading : assigningOperands.Within (.reading {"...", "u", "gone"}) := by
    have hword : ∀ name ∈ ["...", "u", "gone"], name ∈ ({"...", "u", "gone"} : Set String) := by
      simp
    refine .program (List.forall_mem_cons.2 ⟨?_, List.forall_mem_singleton.2 (.package ?_)⟩)
    · exact .assign trivial (.binary trivial (.assign trivial (.package (hword _ (by simp))))
        (.selected (.package (hword _ (by simp))) fun _ _ => trivial))
    · exact hword _ (by simp)
  have hagree : (Scope.empty.bind "lib" ∅).AgreeOn {"...", "u", "gone"}
      (Scope.empty.bind "t" ∅) := by
    rintro name (rfl | rfl | rfl) <;> decide
  obtain ⟨hframe, hagreeing⟩ := eval_ownNames ⟨.testedPackage, Scope.empty.bind "lib" ∅⟩ true
    ⟨false⟩ assigningOperands
  obtain ⟨hresult, hscope⟩ := hagreeing _ _ hreading hagree
  refine ⟨hsparing, hreading, hagree, ?_, ?_, ?_⟩
  · rw [hframe "lib" hsparing]
    decide
  · rw [← hresult]
    decide +kernel
  · rw [← hscope "u" (by simp)]
    decide +kernel

end Session

end ImportQuery
