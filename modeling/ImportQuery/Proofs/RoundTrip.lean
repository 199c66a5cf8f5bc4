import ImportQuery.Proofs.Expr.TooDeep
import ImportQuery.Query

/-!
# Canonical forms as queries

The canonical form of a query is a query again. Compiling it gives the old tree with merged
selectors, and so the same canonical form, as long as its parentheses do not nest too deeply. They
may do so although those of the query did not: operators between operands and lists without
parentheses get parentheses in the canonical form.

* `compile_eq_ok_iff` : the texts that are queries, by their tokens and the grammar.
* `compile_render_of_le` and `compile_render_of_lt` : what comes of compiling a canonical form.
* `compile_nestedQuery` : queries within the limit, some of which have canonical forms that are not.
-/

namespace ImportQuery

open ImportQuery.Expr Token

theorem compile_eq_parse {text : String} {ts : List Token} (h : tokenize text = .ok ts) :
    compile text = (parse ts).mapError .parse := by
  unfold compile compileTraced
  rw [h]
  rfl

/-- A text compiles to a tree where the grammar derives the tree from what the text spells. -/
theorem compile_eq_ok_iff {text : String} {e : Expr} :
    compile text = .ok (some e) ↔
      ∃ ts, Spells text.toList ts ∧ DerivesProgram maxDepth e ts := by
  constructor
  · intro h
    cases htokens : tokenize text with
    | error err =>
      unfold compile compileTraced at h
      rw [htokens] at h
      cases h
    | ok ts =>
      rw [compile_eq_parse htokens] at h
      cases hparse : parse ts with
      | error err =>
        rw [hparse] at h
        cases h
      | ok found =>
        rw [hparse] at h
        cases h
        exact ⟨ts, tokenize_eq_ok_iff.1 htokens, parse_eq_ok_iff.1 hparse⟩
  · rintro ⟨ts, hts, hder⟩
    rw [compile_eq_parse (tokenize_eq_ok_iff.2 hts), parse_eq_ok_iff.2 hder]
    rfl

/-- A text compiles to what its tokens are parsed to. -/
theorem compile_of_tokens {text : String} {e : Expr} (ts : List Token)
    (htokens : (tokenize text).toOption = some ts) (hparse : parse ts = .ok (some e)) :
    compile text = .ok (some e) := by
  rw [compile_eq_parse (tokenize_of_toOption htokens), hparse]
  rfl

/-- What a text compiles to is the tree of a query. -/
theorem isQuery_of_compile {text : String} {e : Expr} (h : compile text = .ok (some e)) :
    e.IsQuery := by
  obtain ⟨ts, hts, hder⟩ := compile_eq_ok_iff.1 h
  exact hder.isQuery hts.isProper

/-! ## Compiling a canonical form -/

section

variable {e : Expr}

theorem compile_render_of_le (h : e.IsQuery) (hfits : e.brackets ≤ maxDepth) :
    compile e.render = .ok (some e.flatten) :=
  compile_eq_ok_iff.2 ⟨e.tokens, h.spells_render, h.derivesProgram_tokens hfits⟩

theorem compile_render_of_lt (h : e.IsQuery) (hdeep : maxDepth < e.brackets) :
    ∃ i, compile e.render = .error (.parse (.tooDeep i)) := by
  obtain ⟨i, hparse⟩ := h.parse_tokens hdeep
  refine ⟨i, ?_⟩
  rw [compile_eq_parse h.tokenize_render, hparse]
  rfl

end

/-! ## Queries with deep canonical forms -/

/-- Calls inside each other, with a list in each. -/
def nestedCalls : Nat → Expr
  | 0 => .package "b"
  | n + 1 => .call "f" [.call "" [.package "a", nestedCalls n]]

/-- A query for nested calls. Its lists have no parentheses. -/
def nestedQuery : Nat → String
  | 0 => "b"
  | n + 1 => "f(a " ++ nestedQuery n ++ ")"

/-- The tokens of the query for nested calls. -/
def nestedTokens : Nat → List Token
  | 0 => [⟨.package, "b"⟩]
  | n + 1 => ⟨.function, "f"⟩ :: parenthesized (⟨.package, "a"⟩ :: nestedTokens n)

theorem spelled_nestedQuery (n : Nat) : Spelled (nestedQuery n) (nestedTokens n) := by
  induction n with
  | zero => exact spelled_package (by decide +kernel)
  | succ n ih =>
    have hfirst : Spelled "a" [⟨.package, "a"⟩] := spelled_package (by decide +kernel)
    have hname : isWord "f".toList = true := by decide +kernel
    have htext : nestedQuery (n + 1) = "f" ++ "(" ++ ("a" ++ " " ++ nestedQuery n) ++ ")" := by
      simp [nestedQuery, ← String.append_assoc]
    rw [htext]
    exact (hfirst.space ih).call hname

theorem derives_nestedCalls {limit d n : Nat} (hfits : d + n ≤ limit) :
    Derives limit d (.chain (nestedCalls n)) (nestedTokens n) := by
  induction n generalizing d with
  | zero => exact .single (.bare .package)
  | succ n ih =>
    have hop : startsWith [.operator] (nestedTokens n) = false := by cases n <;> rfl
    have hmore : Derives limit (d + 1) (.more [nestedCalls n]) (nestedTokens n ++ []) :=
      .more (ih (by omega)) hop .noMore
    rw [List.append_nil] at hmore
    have hfirst : Derives limit (d + 1) (.chain (.package "a")) [⟨.package, "a"⟩] :=
      .single (.bare .package)
    have hlist := hfirst.juxtaposed hmore (by simp)
    exact .single (.bare (.call (.bracket (by omega) (.lastItem hlist))))

theorem brackets_nestedCalls (n : Nat) : (nestedCalls n).brackets = 2 * n := by
  induction n with
  | zero => rfl
  | succ n ih =>
    simp only [nestedCalls, brackets, mostBrackets, ih]
    omega

/-- Only the parentheses of the calls count for the depth of the query. -/
theorem compile_nestedQuery {n : Nat} (hn : n ≤ maxDepth) :
    compile (nestedQuery n) = .ok (some (nestedCalls n)) := by
  have hder : Derives maxDepth 0 (.list (nestedCalls n)) (nestedTokens n) :=
    .alone (derives_nestedCalls (by omega))
  exact compile_eq_ok_iff.2 ⟨_, (spelled_nestedQuery n).spells, .single (.list hder)⟩

/-- Sixty-five calls with lists open sixty-five parentheses, and twice as many in the canonical
form. -/
theorem maxDepth_lt_brackets_nestedCalls : maxDepth < (nestedCalls 65).brackets := by
  rw [brackets_nestedCalls]
  decide

/-! ## Compiling twice -/

/-- **Compiling a canonical form.** Within the limit, it gives the tree with merged selectors, and
beyond it, it fails because the query nests too deeply. -/
theorem compile_canonical {query : String} {e : Expr} (h : compile query = .ok (some e)) :
    (e.brackets ≤ maxDepth → compile e.render = .ok (some e.flatten)) ∧
      (maxDepth < e.brackets → ∃ i, compile e.render = .error (.parse (.tooDeep i))) :=
  ⟨compile_render_of_le (isQuery_of_compile h), compile_render_of_lt (isQuery_of_compile h)⟩

/-- Selectors of a group are merged with those inside; the canonical form of nested calls is too
deep. -/
theorem compile_canonical_group :
    compile "(a:import):test" =
      .ok (some (.selected (.selected (.package "a") ["import"]) ["test"])) ∧
    compile "a:import:test" = .ok (some (.selected (.package "a") ["import", "test"])) ∧
    ∃ i, compile (nestedCalls 65).render = .error (.parse (.tooDeep i)) := by
  have hquery : compile "(a:import):test" =
      .ok (some (.selected (.selected (.package "a") ["import"]) ["test"])) :=
    compile_of_tokens [⟨.openParen, "("⟩, ⟨.package, "a"⟩, ⟨.selector, "import"⟩,
      ⟨.closeParen, ")"⟩, ⟨.selector, "test"⟩] (by decide +kernel) rfl
  have hnested : compile (nestedQuery 65) = .ok (some (nestedCalls 65)) :=
    compile_nestedQuery (by decide)
  exact ⟨hquery, (compile_canonical hquery).1 (by decide),
    (compile_canonical hnested).2 maxDepth_lt_brackets_nestedCalls⟩

/-- **When a canonical form is stable.** The canonical form of a query compiles to a tree with the
same canonical form exactly if its brackets are within the limit. -/
theorem canonical_stable_iff {query : String} {e : Expr} (h : compile query = .ok (some e)) :
    (∃ e', compile e.render = .ok (some e') ∧ e'.render = e.render) ↔ e.brackets ≤ maxDepth := by
  constructor
  · rintro ⟨e', hcompile, -⟩
    refine Nat.not_lt.1 fun hdeep => ?_
    obtain ⟨i, herror⟩ := compile_render_of_lt (isQuery_of_compile h) hdeep
    rw [herror] at hcompile
    cases hcompile
  · intro hfits
    exact ⟨e.flatten, compile_render_of_le (isQuery_of_compile h) hfits, render_flatten e⟩

theorem canonical_stable_juxtaposed :
    compile "a b" = .ok (some (.call "" [.package "a", .package "b"])) ∧
    ∃ e', compile "(a, b)" = .ok (some e') ∧ e'.render = "(a, b)" := by
  have hquery : compile "a b" = .ok (some (.call "" [.package "a", .package "b"])) :=
    compile_of_tokens [⟨.package, "a"⟩, ⟨.package, "b"⟩] (by decide +kernel) rfl
  exact ⟨hquery, (canonical_stable_iff hquery).2 (by decide)⟩

/-- The canonical form of nested calls is no query any more. -/
theorem canonical_not_stable_nested :
    compile (nestedQuery 65) = .ok (some (nestedCalls 65)) ∧
    ¬∃ e', compile (nestedCalls 65).render = .ok (some e') ∧
      e'.render = (nestedCalls 65).render := by
  have hquery : compile (nestedQuery 65) = .ok (some (nestedCalls 65)) :=
    compile_nestedQuery (by decide)
  refine ⟨hquery, ?_⟩
  rintro ⟨e', hcompile, -⟩
  obtain ⟨i, herror⟩ :=
    compile_render_of_lt (isQuery_of_compile hquery) maxDepth_lt_brackets_nestedCalls
  rw [herror] at hcompile
  cases hcompile

end ImportQuery
