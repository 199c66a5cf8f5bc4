import ImportQuery.Proofs.Expr.Stopping
import ImportQuery.Proofs.Expr.Tracking

/-!
# Where syntax errors are reported

A syntax error is reported at the first token that no program can have there: the tokens before it
begin a program, and with it they do not. The programs meant are those of the grammar without its
side conditions (`Forms`), which the errors that point at no token are about.

An operator is an exception. Where an expression should begin and no parenthesis follows it, the
operator itself is unexpected, although a program may have an operator in its place.

* `ParseError.Describes` : what an error says of the tokens.
* `parse_syntaxError` : where the parser reports an error, and what the error says.
-/

namespace ImportQuery

namespace Expr

/-- What the error says of the tokens is so: the token found is the one at the index, the end is
behind the last token, the assignment sign is at the index. -/
def ParseError.Describes (tokens : List Token) : ParseError → Prop
  | unexpectedToken _ found i => tokens[i]? = some found
  | unexpectedEnd _ i => i = tokens.length
  | misplacedAssignment i => ∃ sign, tokens[i]? = some ⟨.assign, sign⟩
  | operandCount .. | nonFinalExpression _ | tooDeep _ => True

theorem ParseError.PointsAt.describes {e : ParseError} {c : Cursor} {ts tokens : List Token}
    (h : e.PointsAt c) (hlead : (Cursor.ofTokens tokens).Leads ts c) : e.Describes tokens := by
  have htokens : tokens = ts ++ c.rest := hlead.rest
  have hindex : c.index = ts.length := hlead.index.trans (Nat.zero_add _)
  have hhead : tokens[ts.length]? = c.rest.head? := by
    rw [htokens, List.getElem?_append_right (Nat.le_refl _), Nat.sub_self, List.head?_eq_getElem?]
  cases e with
  | unexpectedToken _ found i =>
    obtain ⟨rfl, hfound⟩ := h
    exact (hindex ▸ hhead).trans hfound
  | unexpectedEnd _ i =>
    obtain ⟨rfl, hend⟩ := h
    rw [Describes, hindex, htokens, hend, List.append_nil]
  | misplacedAssignment i =>
    obtain ⟨rfl, hsign⟩ := h
    obtain ⟨sign, us, hrest⟩ := startsWith_singleton.1 hsign
    exact ⟨sign, (hindex ▸ hhead).trans (by rw [hrest]; rfl)⟩
  | operandCount | nonFinalExpression | tooDeep => trivial

theorem ParseError.PointsAt.index_eq {e : ParseError} {c : Cursor} {i : Nat} (h : e.PointsAt c)
    (hplace : e.place? = some i) : i = c.index := by
  cases e with
  | unexpectedToken | unexpectedEnd | misplacedAssignment =>
    exact (Option.some.inj hplace).symm.trans h.1
  | operandCount | nonFinalExpression | tooDeep => cases hplace

end Expr

open ImportQuery.Expr ImportQuery.Expr.ParseM Token

/-- **Syntax errors are reported where the tokens stop being a program.** The tokens before the
index of the error begin a program, the error says what stands there, and no program begins with
the tokens up to and with that one, unless it is an operator; nor are the tokens themselves a
program. -/
theorem parse_syntaxError {text : String} {tokens : List Token} {e : ParseError} {i : Nat}
    (htokens : tokenize text = .ok tokens) (herror : parse tokens = .error e)
    (hplace : e.place? = some i) :
    (∃ us, Forms .program (tokens.take i ++ us)) ∧ e.Describes tokens ∧
      (∀ t, tokens[i]? = some t → t.kind ≠ .operator →
        ∀ us, ¬Forms .program (tokens.take (i + 1) ++ us)) ∧
      ¬Forms .program tokens := by
  have hproper : (Cursor.ofTokens tokens).Proper := (tokenize_eq_ok_iff.1 htokens).isProper
  obtain ⟨c, hfails⟩ : ∃ c, Fails Parser.program (.ofTokens tokens) e c :=
    ⟨_, Prod.ext herror rfl⟩
  obtain hnone | ⟨hpoints, ts, hlead, us, -, hbegun⟩ := diagnoses_program hproper hfails
  · rw [hplace] at hnone
    cases hnone
  have hsplit : tokens = ts ++ c.rest := hlead.rest
  have hi : i = ts.length := (hpoints.index_eq hplace).trans (hlead.index.trans (Nat.zero_add _))
  have htake : tokens.take i = ts := by rw [hsplit, hi, List.take_left]
  have hdrop : tokens.drop i = c.rest := by rw [hsplit, hi, List.drop_left]
  -- The error is at the fork, so it is not behind the fork.
  have hfork {w : List Token} (hw : Fork c.rest w) : ¬Forms .program (ts ++ w) := by
    intro hforms
    obtain hnone | hlt := follows_program hw hforms ⟨ts, hsplit, rfl⟩ hfails
    · rw [hplace] at hnone
      cases hnone
    · exact Nat.lt_irrefl _ hlt
  refine ⟨⟨us, htake ▸ hbegun⟩, hpoints.describes hlead, fun t ht hop vs => ?_, ?_⟩
  · obtain ⟨hlt, rfl⟩ := List.getElem?_eq_some_iff.1 ht
    have hrest : c.rest = tokens[i] :: tokens.drop (i + 1) :=
      hdrop.symm.trans (List.drop_eq_getElem_cons hlt)
    rw [List.take_add_one, ht, htake, List.append_assoc]
    exact hfork (hrest ▸ .behind hop)
  · exact hsplit ▸ hfork .same

theorem parse_syntaxError_argument :
    ∃ tokens, tokenize "f(a, b := c)" = .ok tokens ∧
      parse tokens = .error (.misplacedAssignment 5) ∧
      (∃ us, Forms .program (tokens.take 5 ++ us)) ∧
      ∀ us, ¬Forms .program (tokens.take 6 ++ us) := by
  have htokens : tokenize "f(a, b := c)" = .ok [⟨.function, "f"⟩, ⟨.openParen, "("⟩,
      ⟨.package, "a"⟩, ⟨.comma, ","⟩, ⟨.package, "b"⟩, ⟨.assign, ":="⟩, ⟨.package, "c"⟩,
      ⟨.closeParen, ")"⟩] :=
    tokenize_of_toOption (by decide +kernel)
  obtain ⟨hbegun, -, hother, -⟩ := parse_syntaxError htokens rfl rfl
  exact ⟨_, htokens, rfl, hbegun, hother _ rfl (by decide)⟩

end ImportQuery
