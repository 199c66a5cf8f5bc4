import ImportQuery.Proofs.Eval.Simulation
import ImportQuery.Session

/-!
# Errors belong to the query

Unless the evaluation is strict, a word always denotes a set, if only the empty one. What else can
go wrong is a matter of tags, of names of calls and of numbers of arguments, and none of these is
computed: so no graph, no variable and no setting has an influence on whether an expression can be
evaluated, and on which error is met first if it cannot.

* `Setup.exists_resolve` : looking up a word does not fail.
* `Setup.simulation_lenient` : evaluations on any two graphs fail alike.
* `Session.lenient_error_iff` : the same for any two sessions.
-/

namespace ImportQuery

open EvalM

namespace Setup

/-- Unless the evaluation is strict, looking up a word does not fail. -/
theorem exists_resolve (g : Graph) (s : Setting) (name : String) (st : EvalState) :
    ∃ ids, ((resolve ⟨g, false⟩ s name).run st).1 = .ok ids := by
  rw [run_resolve]
  cases st.scope.get? name with
  | some ids => exact ⟨ids, rfl⟩
  | none =>
    simp only [Bool.false_eq_true, if_false]
    split_ifs
    · exact ⟨_, rfl⟩
    · exact ⟨_, rfl⟩
    · exact ⟨_, rfl⟩

theorem relates_resolve_lenient (g h : Graph) (s s' : Setting) (name : String) :
    Relates (fun _ _ => True) (fun _ _ => True) (resolve ⟨g, false⟩ s name)
      (resolve ⟨h, false⟩ s' name) := by
  intro st st' _
  obtain ⟨ids, hids⟩ := exists_resolve g s name st
  obtain ⟨ids', hids'⟩ := exists_resolve h s' name st'
  rw [hids, hids']
  exact ⟨.ok trivial, trivial⟩

/-- Any two evaluations that are not strict meet the same errors, whatever sets they come to. -/
theorem simulation_lenient (g h : Graph) :
    Simulation .whole ⟨g, false⟩ ⟨h, false⟩ (fun _ _ => True) (fun _ _ => True)
      (fun _ _ => True) where
  empty := trivial
  resolve _ _ := relates_resolve_lenient g h _ _ _
  select _ _ _ _ := trivial
  op _ _ _ := trivial
  unions _ := trivial
  function _ _ _ _ _ := trivial
  change _ _ _ := Setting.alike_change (fun _ => trivial) _ _
  bind _ _ _ := trivial

end Setup

namespace Session

/-- **Errors belong to the query.** If an expression cannot be evaluated in one session, it cannot
be evaluated in any other, and the error is the same: whatever graph and variables the sessions
have, and whether tests are included in one, both or neither. -/
theorem lenient_error_iff (σ σ' : Session) (s s' : Setting) (e : Expr) (err : EvalError) :
    (σ.eval false s e).1 = .error err ↔ (σ'.eval false s' e).1 = .error err := by
  have hrelates : Relates (fun _ _ => True) (fun _ _ => True)
      (Setup.eval ⟨σ.graph, false⟩ s e) (Setup.eval ⟨σ'.graph, false⟩ s' e) :=
    (Setup.simulation_lenient σ.graph σ'.graph).eval e.within_whole trivial
  exact (hrelates ⟨σ.scope, []⟩ ⟨σ'.scope, []⟩ trivial).1.error_iff err

end Session

end ImportQuery
