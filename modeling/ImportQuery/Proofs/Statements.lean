import ImportQuery.Proofs.Eval.Simulation
import ImportQuery.Proofs.RoundTrip
import ImportQuery.Session

/-!
# Statements together and one at a time

A program can be given statement by statement. Texts that are statements, with semicolons between
them, are the text of the program of these statements, and evaluating the program is evaluating the
statements one after another with the same variables, up to the first that fails.

* `compile_intercalate` : the text of a program made of the texts of its statements.
* `Session.eval_program` : a program evaluated in a session, and its statements in turn.
-/

namespace ImportQuery

open ImportQuery.Expr Token

/-! ## Texts with semicolons between them -/

/-- A text that compiles, and to no program, is a statement. -/
theorem derivesStatement_of_compile {query : String} {e : Expr}
    (h : compile query = .ok (some e)) (he : ∀ ss, e ≠ .program ss) :
    ∃ ts, Spells query.toList ts ∧ DerivesStatement maxDepth 0 e ts := by
  obtain ⟨ts, hts, hder⟩ := compile_eq_ok_iff.1 h
  cases hder with
  | single hder => exact ⟨ts, hts, hder⟩
  | several => exact absurd rfl (he _)

/-- No token runs over a semicolon, so every statement keeps the tokens that it has alone. -/
theorem separated_intercalate {queries : List String} {es : List Expr}
    (h : List.Forall₂
      (fun q e => ∃ ts, Spells q.toList ts ∧ DerivesStatement maxDepth 0 e ts) queries es)
    (hne : es ≠ []) :
    ∃ ts, Spells (";".intercalate queries).toList ts ∧
      Separated .semicolon (DerivesStatement maxDepth 0) es ts := by
  induction h with
  | nil => exact absurd rfl hne
  | cons hq hqs ih =>
    obtain ⟨ts, hts, hder⟩ := hq
    cases hqs with
    | nil => exact ⟨ts, by rwa [String.intercalate_singleton], .last hder⟩
    | cons hq' hqs =>
      obtain ⟨us, hus, hders⟩ := ih (by simp)
      refine ⟨ts ++ ⟨.semicolon, ";"⟩ :: us, ?_, .cons hder hders⟩
      rw [String.intercalate_cons_cons, String.toList_append, String.toList_append,
        List.append_assoc]
      exact hts.append (endsBefore_mark (by decide) _) (spells_mark rfl hus)

/-- The texts of several statements, of which all but the last are assignments, are the text of a
program. -/
theorem compile_intercalate {queries : List String} {es : List Expr}
    (h : List.Forall₂ (fun q e => compile q = .ok (some e)) queries es)
    (hes : ∀ ss, .program ss ∉ es) (hlength : 2 ≤ es.length)
    (hassign : ∀ e ∈ es.dropLast, e.isAssignment = true) :
    compile (";".intercalate queries) = .ok (some (.program es)) := by
  have hder : List.Forall₂
      (fun q e => ∃ ts, Spells q.toList ts ∧ DerivesStatement maxDepth 0 e ts) queries es := by
    clear hlength hassign
    induction h with
    | nil => exact .nil
    | cons hq _ ih =>
      simp only [List.mem_cons, not_or] at hes
      refine .cons (derivesStatement_of_compile hq fun ss hss => (hes ss).1 hss.symm) (ih ?_)
      exact fun ss => (hes ss).2
  have hne : es ≠ [] := by
    rintro rfl
    simp at hlength
  obtain ⟨ts, hts, hsep⟩ := separated_intercalate hder hne
  exact compile_eq_ok_iff.2 ⟨ts, hts, .several hsep hlength hassign⟩

/-! ## Evaluating in turn -/

namespace Session

/-- Expressions evaluated one after another in a session, up to the first that fails: the last
answer, and the variables afterwards. -/
def evalInTurn (σ : Session) (strict : Bool) (s : Setting) :
    List Expr → Except EvalError IdSet × Scope
  | [] => (.ok ∅, σ.scope)
  | [e] => σ.eval strict s e
  | e :: e' :: es =>
    match σ.eval strict s e with
    | (.ok _, scope) => evalInTurn { σ with scope } strict s (e' :: es)
    | (.error err, scope) => (.error err, scope)

variable {g : Graph} {strict : Bool} {s : Setting}

/-- What has been reported before an evaluation has no influence on it. -/
theorem eval_run (e : Expr) (st : EvalState) :
    ((Setup.eval ⟨g, strict⟩ s e).run st).map id EvalState.scope =
      eval ⟨g, st.scope⟩ strict s e := by
  have hrelates := (Simulation.refl ⟨g, strict⟩).eval e.within_whole (rfl : s = s)
  obtain ⟨hanswer, hscope⟩ := hrelates st ⟨st.scope, []⟩ rfl
  exact Prod.ext (eq_of_alike hanswer) hscope

theorem evalInOrder_run (result : IdSet) (e : Expr) (es : List Expr) (st : EvalState) :
    ((Setup.evalInOrder ⟨g, strict⟩ s result (e :: es)).run st).map id EvalState.scope =
      evalInTurn ⟨g, st.scope⟩ strict s (e :: es) := by
  induction es generalizing result e st with
  | nil =>
    rw [Setup.evalInOrder, evalInTurn, ← eval_run, run_bind]
    rcases (Setup.eval ⟨g, strict⟩ s e).run st with ⟨_ | _, _⟩
    · rfl
    · rfl
  | cons e' es ih =>
    rw [Setup.evalInOrder, evalInTurn, ← eval_run, run_bind]
    rcases (Setup.eval ⟨g, strict⟩ s e).run st with ⟨_ | ids, st'⟩
    · rfl
    · exact ih ids e' st'

/-- Evaluating a program is evaluating its statements in turn. -/
theorem eval_program (σ : Session) (es : List Expr) :
    σ.eval strict s (.program es) = σ.evalInTurn strict s es := by
  rw [← eval_run _ ⟨σ.scope, []⟩, Setup.eval]
  cases es with
  | nil => rfl
  | cons e es => exact evalInOrder_run ∅ e es ⟨σ.scope, []⟩

end Session

/-- **Statements together and one at a time.** Texts that compile to one statement each, of which
all but the last are assignments, compile to the program of these statements when there are
semicolons between them; and in every session, the program gives the same result or error as its
statements evaluated in turn, and leaves the same variables. -/
theorem joined_eq_inTurn {queries : List String} {es : List Expr}
    (h : List.Forall₂ (fun q e => compile q = .ok (some e)) queries es)
    (hes : ∀ ss, .program ss ∉ es) (hlength : 2 ≤ es.length)
    (hassign : ∀ e ∈ es.dropLast, e.isAssignment = true) :
    compile (";".intercalate queries) = .ok (some (.program es)) ∧
      ∀ (σ : Session) (strict : Bool) (s : Setting),
        σ.eval strict s (.program es) = σ.evalInTurn strict s es :=
  ⟨compile_intercalate h hes hlength hassign, fun σ _ _ => σ.eval_program es⟩

/-- Statements of which the second fails. -/
def failingStatements : List Expr :=
  [.assign "t" (.selected (.package "lib") ["test"]), .assign "u" (.call "nope" [.package "t"]),
    .call "xor" [.package "t", .package "u"]]

/-- What has been bound before the failure stays bound, and nothing is bound after it. -/
theorem joined_eq_inTurn_failing :
    List.Forall₂ (fun q e => compile q = .ok (some e))
      ["t := lib:test ", "u:=nope(t)", " xor(t, u)"] failingStatements ∧
    compile "t := lib:test ;u:=nope(t); xor(t, u)" = .ok (some (.program failingStatements)) ∧
    (Session.eval ⟨.testedPackage, .empty⟩ true ⟨false⟩ (.program failingStatements)).1 =
      .error (.undefinedFunction "nope") ∧
    (Session.eval ⟨.testedPackage, .empty⟩ true ⟨false⟩ (.program failingStatements)).2.get? "t" =
      some (.ofList ["lib.test"]) ∧
    ∀ x, x ≠ "t" → (Session.eval ⟨.testedPackage, .empty⟩ true ⟨false⟩
      (.program failingStatements)).2.get? x = none := by
  have hfirst : compile "t := lib:test " =
      .ok (some (.assign "t" (.selected (.package "lib") ["test"]))) :=
    compile_of_tokens [⟨.package, "t"⟩, ⟨.assign, ":="⟩, ⟨.package, "lib"⟩, ⟨.selector, "test"⟩]
      (by decide +kernel) rfl
  have hsecond : compile "u:=nope(t)" =
      .ok (some (.assign "u" (.call "nope" [.package "t"]))) :=
    compile_of_tokens [⟨.package, "u"⟩, ⟨.assign, ":="⟩, ⟨.function, "nope"⟩, ⟨.openParen, "("⟩,
      ⟨.package, "t"⟩, ⟨.closeParen, ")"⟩] (by decide +kernel) rfl
  have hthird : compile " xor(t, u)" =
      .ok (some (.call "xor" [.package "t", .package "u"])) :=
    compile_of_tokens [⟨.function, "xor"⟩, ⟨.openParen, "("⟩, ⟨.package, "t"⟩, ⟨.comma, ","⟩,
      ⟨.package, "u"⟩, ⟨.closeParen, ")"⟩] (by decide +kernel) rfl
  have hqueries : List.Forall₂ (fun q e => compile q = .ok (some e))
      ["t := lib:test ", "u:=nope(t)", " xor(t, u)"] failingStatements :=
    .cons hfirst (.cons hsecond (.cons hthird .nil))
  obtain ⟨hcompile, heval⟩ :=
    joined_eq_inTurn hqueries (by simp [failingStatements]) (by decide) (by decide)
  have hscope : (Session.evalInTurn ⟨.testedPackage, .empty⟩ true ⟨false⟩ failingStatements).2 =
      Scope.empty.bind "t" (.ofList ["lib.test"]) := by decide +kernel
  refine ⟨hqueries, hcompile, ?_⟩
  rw [heval, hscope]
  refine ⟨by decide +kernel, by decide, fun x hx => ?_⟩
  rw [Scope.get?_bind, if_neg hx, Scope.get?_empty]

end ImportQuery
