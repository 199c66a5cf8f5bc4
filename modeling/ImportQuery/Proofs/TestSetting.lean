import ImportQuery.Check
import ImportQuery.Proofs.Spellings
import ImportQuery.Proofs.Statements

/-!
# The setting around a query

Test variants can be shown or hidden for a whole check, or by a call around its query that changes
the setting. Such a call opens one more parenthesis, so the query may come to nest too deeply; if it
does not, then the two ways come to the same.

* `compile_call` : what a query in the parentheses of a call compiles to.
* `Setup.evaluate_call_setting` : a call that changes the setting for its only argument.
* `Check.run_testSetting` : a check under a setting, and a check of a query with the setting
  around it.
-/

namespace ImportQuery

open ImportQuery.Expr Token

/-! ## The query in parentheses -/

/-- A list in the parentheses of a call is compiled as the argument of the call, unless it nests too
deeply. -/
theorem compile_call {query name : String} {e : Expr} (hname : isWord name.toList = true)
    (h : compile query = .ok (some e)) (hassign : e.isAssignment = false)
    (he : ∀ ss, e ≠ .program ss) :
    CompilesTo (name ++ "(" ++ query ++ ")") (.call name [e]) := by
  have hoperand : e.isOperand = true := by
    cases e with
    | assign => cases hassign
    | program ss => exact absurd rfl (he ss)
    | _ => rfl
  obtain ⟨ts, hquery⟩ := Operand.of_compile h hoperand
  have hargument := hquery.derives_single (Nat.lt_succ_self maxDepth)
  exact compilesTo_of_derives (hquery.spelled.call hname)
    (.alone (.single (.bare (.call hargument)))) (Nat.le_succ maxDepth)

/-! ## The changed setting -/

section

variable {u : Setup} {s inner : Setting} {name key value : String}

/-- A call that changes the setting reports so and goes on with its argument. -/
theorem Setup.run_call_setting (hname : splitSetting? name = some (key, value))
    (hchange : s.change key value = .ok inner) (e : Expr) (st : EvalState) :
    (u.eval s (.call name [e])).run st =
      (u.eval inner e).run (st.record (.changedSetting 1 key value)) := by
  have harity : EvalM.checkArity name (.atLeast 1) [e].length = pure () := rfl
  rw [eval, hname]
  dsimp only
  rw [harity, pure_bind, hchange, run_bind_ok (EvalM.run_report _ st), evalEach, evalEach,
    run_bind, run_bind]
  rcases (u.eval inner e).run (st.record (.changedSetting 1 key value)) with ⟨err | ids, st'⟩
  · rfl
  · have hunion : IdSet.unions [ids] = ids := Std.ExtTreeSet.ext_mem fun id => by simp
    exact congrArg (fun ids => (Except.ok ids, st')) hunion

/-- A call that changes the setting denotes what its only argument does under that setting. -/
theorem Setup.evaluate_call_setting (hname : splitSetting? name = some (key, value))
    (hchange : s.change key value = .ok inner) (e : Expr) :
    (u.evaluate s (.call name [e])).1 = (u.evaluate inner e).1 := by
  have hrun (st : EvalState) (hst : st.scope = .empty) :
      ((u.eval inner e).run st).map id EvalState.scope =
        Session.eval ⟨u.graph, .empty⟩ u.strict inner e := by
    rw [← hst]
    exact Session.eval_run e st
  have hreported := hrun (EvalState.record ⟨.empty, []⟩ (.changedSetting 1 key value)) rfl
  have hsame := congrArg Prod.fst (hreported.trans (hrun ⟨.empty, []⟩ rfl).symm)
  exact (congrArg Prod.fst (run_call_setting hname hchange e ⟨.empty, []⟩)).trans hsame

end

/-! ## Checks -/

namespace Check

/-- What a check finds is the answer to what its query compiles to. -/
theorem run_of_compile (c : Check) {e : Expr} (h : compile c.query = .ok (some e)) :
    c.run = if c.syntaxOnly then .ok .valid else (c.answer e).1 := by
  unfold compile at h
  rw [run, runTraced]
  rcases hcompile : compileTraced c.query with ⟨answer, trace⟩
  rw [hcompile] at h
  obtain rfl : answer = .ok (some e) := h
  dsimp only
  split <;> rfl

theorem eq_ok_of_toOption {ε α : Type} {x : Except ε α} {a : α} (h : x.toOption = some a) :
    x = .ok a := by
  cases x with
  | ok b => exact congrArg Except.ok (Option.some.inj h)
  | error e => cases h

/-- Answers are the same if the expressions denote the same on every graph. -/
theorem answer_congr {c c' : Check} {e e' : Expr} (hinput : c.input = c'.input)
    (hsame : ∀ g, (Setup.evaluate ⟨g, c.strict⟩ ⟨c.includeTests⟩ e).1 =
      (Setup.evaluate ⟨g, c'.strict⟩ ⟨c'.includeTests⟩ e').1) :
    (c.answer e).1 = (c'.answer e').1 := by
  rw [answer, answer, ← hinput]
  cases c.input with
  | none => rfl
  | some text =>
    dsimp only
    rcases readGraph text with ⟨failure | g, trace⟩
    · rfl
    · have hg := hsame g
      dsimp only
      generalize Setup.evaluate ⟨g, c.strict⟩ ⟨c.includeTests⟩ e = found at hg
      generalize Setup.evaluate ⟨g, c'.strict⟩ ⟨c'.includeTests⟩ e' = found' at hg
      obtain ⟨r, more⟩ := found
      obtain ⟨r', more'⟩ := found'
      obtain rfl : r = r' := hg
      cases r <;> rfl

/-- The setting that shows or hides test variants, as the name of a call. -/
def testSetting (shown : Bool) : String := if shown then "test=1" else "test=0"

/-- **The setting around a query.** A query for an expression, in the parentheses of a call that
shows or hides test variants, nests too deeply, or every check of it finds what a check of the query
itself finds under that setting, whatever its own setting is. -/
theorem run_testSetting {query : String} {e : Expr} (h : compile query = .ok (some e))
    (hassign : e.isAssignment = false) (he : ∀ ss, e ≠ .program ss) (shown : Bool) :
    (∃ i, compile (testSetting shown ++ "(" ++ query ++ ")") = .error (.parse (.tooDeep i))) ∨
      ∀ (input : Option String) (syntaxOnly strict outer : Bool),
        run ⟨testSetting shown ++ "(" ++ query ++ ")", input, syntaxOnly, strict, outer⟩ =
          run ⟨query, input, syntaxOnly, strict, shown⟩ := by
  have hname : isWord (testSetting shown).toList = true := by cases shown <;> decide +kernel
  rcases compile_call hname h hassign he with hcall | hdeep
  · right
    intro input syntaxOnly strict outer
    let c : Check := ⟨testSetting shown ++ "(" ++ query ++ ")", input, syntaxOnly, strict, outer⟩
    let c' : Check := ⟨query, input, syntaxOnly, strict, shown⟩
    have hanswer : (c.answer (.call (testSetting shown) [e])).1 = (c'.answer e).1 := by
      refine answer_congr rfl fun g => ?_
      cases shown with
      | true =>
        exact Setup.evaluate_call_setting (by decide +kernel : _ = some ("test", "1")) rfl e
      | false =>
        exact Setup.evaluate_call_setting (by decide +kernel : _ = some ("test", "0")) rfl e
    change c.run = c'.run
    rw [run_of_compile c hcall, run_of_compile c' h, hanswer]
  · exact .inl hdeep

/-- A package and its test variant, and a test variant below it. -/
def libraryText : String :=
  "\x7b\"nodes\": [\x7b\"id\": \"lib\"\x7d, \x7b\"id\": \"lib.test\", \"test_for\": \"lib\"\x7d,
    \x7b\"id\": \"lib/a.test\", \"test_for\": \"lib/a\", \"imports\": [\"lib\"]\x7d]\x7d"

/-- The setting around a query that has the opposite setting inside. The pattern is under the outer
one, so that it fits a test variant. -/
theorem run_testSetting_nested :
    compile "lib/... test=0(lib:test)" = .ok (some (.call ""
      [.package "lib/...", .call "test=0" [.selected (.package "lib") ["test"]]])) ∧
    (∀ (input : Option String) (syntaxOnly strict : Bool),
      run ⟨"test=1(lib/... test=0(lib:test))", input, syntaxOnly, strict, false⟩ =
        run ⟨"lib/... test=0(lib:test)", input, syntaxOnly, strict, true⟩) ∧
    run ⟨"test=1(lib/... test=0(lib:test))", some libraryText, false, true, false⟩ =
      .ok (.selected (.ofList ["lib", "lib.test", "lib/a.test"])) := by
  have hquery : compile "lib/... test=0(lib:test)" = .ok (some (.call ""
      [.package "lib/...", .call "test=0" [.selected (.package "lib") ["test"]]])) :=
    compile_of_tokens [⟨.package, "lib/..."⟩, ⟨.function, "test=0"⟩, ⟨.openParen, "("⟩,
      ⟨.package, "lib"⟩, ⟨.selector, "test"⟩, ⟨.closeParen, ")"⟩] (by decide +kernel) rfl
  have hcall : compile "test=1(lib/... test=0(lib:test))" = .ok (some (.call "test=1" [.call ""
      [.package "lib/...", .call "test=0" [.selected (.package "lib") ["test"]]]])) :=
    compile_of_tokens [⟨.function, "test=1"⟩, ⟨.openParen, "("⟩, ⟨.package, "lib/..."⟩,
      ⟨.function, "test=0"⟩, ⟨.openParen, "("⟩, ⟨.package, "lib"⟩, ⟨.selector, "test"⟩,
      ⟨.closeParen, ")"⟩, ⟨.closeParen, ")"⟩] (by decide +kernel) rfl
  have hsame : ∀ (input : Option String) (syntaxOnly strict : Bool),
      run ⟨"test=1(lib/... test=0(lib:test))", input, syntaxOnly, strict, false⟩ =
        run ⟨"lib/... test=0(lib:test)", input, syntaxOnly, strict, true⟩ := by
    intro input syntaxOnly strict
    rcases run_testSetting hquery rfl (by simp) true with ⟨i, hdeep⟩ | hsame
    · cases hcall.symm.trans hdeep
    · exact hsame input syntaxOnly strict false
  refine ⟨hquery, hsame, ?_⟩
  let c : Check := ⟨"lib/... test=0(lib:test)", some libraryText, false, true, true⟩
  have hanswer : (c.answer (.call ""
      [.package "lib/...", .call "test=0" [.selected (.package "lib") ["test"]]])).1.toOption =
        some (.selected (.ofList ["lib", "lib.test", "lib/a.test"])) := by decide +kernel
  exact (hsame _ _ _).trans ((run_of_compile c hquery).trans (eq_ok_of_toOption hanswer))

end Check

end ImportQuery
