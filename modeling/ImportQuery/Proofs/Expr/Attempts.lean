import ImportQuery.Proofs.Expr.Journal
import ImportQuery.Proofs.Expr.Stopping
import ImportQuery.Proofs.Token.Language
import Mathlib.Logic.Function.Iterate

/-!
# Reading on behind an error

One cursor can be used for one attempt after another to read a program, and an attempt begins where
the one before it failed, with the parentheses still open that were open there. However many
attempts there have been, the next one stays among the tokens and within the limit, and closes only
what it has opened. A parenthesis behind the name of a function, or an operator, is never missing
in the tokens of a text.

* `Cursor.after` : where attempts leave a cursor.
* `fails_program_at_end` : an attempt behind the last token.
* `attempts_confined` : what any number of attempts may do.
* `tokenize_never_missing` : the errors that no text leads to.
-/

namespace ImportQuery.Expr

open ParseM ImportQuery.Expr.Parser
open Token (startsWith tokenize)

/-! ## One attempt after another -/

namespace Cursor

/-- The cursor behind `n` attempts to read a program, whatever comes of them. -/
def after (c : Cursor) (n : Nat) : Cursor := (fun c => (Parser.program.run c).2)^[n] c

/-- The answer of the attempt that comes behind `n` attempts. -/
def answer (c : Cursor) (n : Nat) : Except ParseError (Option Expr) :=
  (Parser.program.run (c.after n)).1

theorem after_succ (c : Cursor) (n : Nat) :
    c.after (n + 1) = (Parser.program.run (c.after n)).2 :=
  Function.iterate_succ_apply' _ _ _

theorem run_program_after (c : Cursor) (n : Nat) :
    Parser.program.run (c.after n) = (c.answer n, c.after (n + 1)) := by
  rw [after_succ]
  rfl

end Cursor

theorem attempts_eq (n : Nat) (c : Cursor) : attempts n c = (List.range n).map c.answer := by
  induction n generalizing c with
  | zero => rfl
  | succ n ih =>
    rw [List.range_succ_eq_map, List.map_cons, List.map_map]
    exact congrArg _ (ih _)

/-! ## Behind the last token -/

section

variable {c c' : Cursor}

theorem fails_primary_at_end {inner : Option (ParseM Expr)} (h : c.rest = []) :
    Fails (primary inner) c (.unexpectedEnd .expression c.index) c := by
  have hunexpected : Fails (unexpected .expression : ParseM Expr) c
      (.unexpectedEnd .expression c.index) c := by
    rw [fails_unexpected_iff, Cursor.unexpected, h]
    exact ⟨rfl, rfl⟩
  rw [primary, fails_cursor_bind, h]
  exact hunexpected

theorem fails_list_at_end {room : Nat} (h : c.rest = []) :
    Fails (Parser.list room) c (.unexpectedEnd .expression c.index) c := by
  have hterm : Fails (Parser.term (inside room)) c (.unexpectedEnd .expression c.index) c :=
    fails_bind.2 (.inl (fails_primary_at_end h))
  have hchain : Fails (Parser.chain room (inside room)) c (.unexpectedEnd .expression c.index) c :=
    fails_bind.2 (.inl hterm)
  rw [list_eq]
  exact fails_bind.2 (.inl hchain)

/-- Behind the last token there is no expression. -/
theorem fails_program_at_end (h : c.rest = []) (hindex : c.index ≠ 0) :
    Fails Parser.program c (.unexpectedEnd .expression c.index) c := by
  have hstatement : Fails (Parser.statement (maxDepth - c.depth)) c
      (.unexpectedEnd .expression c.index) c := by
    rw [Parser.statement, fails_cursor_bind, h]
    exact fails_list_at_end h
  rw [Parser.program, fails_cursor_bind]
  dsimp only
  rw [if_neg fun hempty => hindex hempty.1]
  exact fails_bind.2 (.inl (fails_bind.2 (.inl hstatement)))

/-- A program is read up to the last token. -/
theorem rest_eq_nil_of_reads_program {result : Option Expr}
    (h : Reads Parser.program c result c') : c'.rest = [] := by
  rw [Parser.program, reads_cursor_bind] at h
  dsimp only at h
  split at h
  · rename_i hempty
    obtain ⟨-, rfl⟩ := reads_pure.1 h
    exact hempty.2
  obtain ⟨ss, d, -, h⟩ := reads_bind.1 h
  rw [reads_cursor_bind] at h
  split at h
  · obtain ⟨_, _, hunexpected, -⟩ := reads_bind.1 h
    exact absurd hunexpected not_reads_unexpected
  rename_i hrest
  split at h
  · exact absurd h not_reads_fail
  obtain ⟨_, d', hreport, h⟩ := reads_bind.1 h
  obtain rfl := reads_report.1 hreport
  split at h <;>
  · obtain ⟨-, rfl⟩ := reads_pure.1 h
    exact Decidable.not_not.1 hrest

/-! ## Staying within bounds -/

theorem path_after (c : Cursor) (n : Nat) :
    Path (c.after n) (Parser.program.journal (c.after n)) (c.after (n + 1)) := by
  rw [Cursor.after_succ]
  exact path_journal _ _

theorem within_program (hc : c.depth ≤ maxDepth) : c.Within (Parser.program.run c).2 :=
  (path_journal _ c).within (Cursor.within_refl hc) (sound_program hc).safe

/-- What is read in an attempt leaves no parenthesis open. -/
theorem passes_program (hc : c.depth ≤ maxDepth) {result : Option Expr}
    (h : Reads Parser.program c result c') : ∃ ts, c.Passes ts c' :=
  (sound_program hc).passes h

theorem within_after (tokens : List Token) (n : Nat) :
    (Cursor.ofTokens tokens).Within ((Cursor.ofTokens tokens).after n) := by
  induction n with
  | zero => exact Cursor.within_refl (Nat.zero_le _)
  | succ n ih =>
    rw [Cursor.after_succ]
    exact ih.trans (within_program ih.le_maxDepth)

end

/-- From `c`, a cursor over the tokens has come to `v`: not back, not past the last token, and not
out of a parenthesis that was open at `c`. -/
structure Cursor.Confined (tokens : List Token) (c v : Cursor) : Prop where
  rest : v.rest = tokens.drop v.index
  le_index : c.index ≤ v.index
  index_le : v.index ≤ tokens.length
  le_depth : c.depth ≤ v.depth
  depth_le : v.depth ≤ maxDepth

theorem confined_of_within {tokens : List Token} {c v : Cursor}
    (hc : (Cursor.ofTokens tokens).Within c) (h : c.Within v) : c.Confined tokens v := by
  obtain ⟨ts, hts⟩ := (hc.trans h).leads
  obtain ⟨us, hus⟩ := h.leads
  have htokens : tokens = ts ++ v.rest := hts.rest
  have hindex : v.index = ts.length := hts.index.trans (Nat.zero_add _)
  refine ⟨?_, ?_, ?_, h.depth_le, h.le_maxDepth⟩
  · rw [hindex, htokens, List.drop_left]
  · rw [hus.index]
    exact Nat.le_add_right _ _
  · rw [hindex, htokens, List.length_append]
    exact Nat.le_add_right _ _

theorem Act.index_le_apply (act : Act) (v : Cursor) : v.index ≤ (act.apply v).index := by
  cases act with
  | missing expected => exact Nat.le_refl _
  | move m =>
    cases m with
    | advance n => exact Nat.le_add_right _ _
    | enter | leave | report => exact Nat.le_refl _

/-- An attempt that succeeds leaves the cursor behind the last token, with the parentheses open that
it found open, and every later one fails there. -/
theorem after_of_answer_eq_ok {tokens : List Token} (hne : tokens ≠ []) {n : Nat}
    {result : Option Expr} (h : (Cursor.ofTokens tokens).answer n = .ok result) :
    let start := Cursor.ofTokens tokens
    (start.after (n + 1)).depth = (start.after n).depth ∧
      (start.after (n + 1)).index = tokens.length ∧
      ∀ k, start.answer (n + 1 + k) = .error (.unexpectedEnd .expression tokens.length) := by
  intro start
  have hstart : start.Within start := Cursor.within_refl (Nat.zero_le _)
  have hreads : Reads Parser.program (start.after n) result (start.after (n + 1)) := by
    rw [Reads, Cursor.run_program_after, h]
  obtain ⟨ts, hpasses⟩ := passes_program (within_after tokens n).le_maxDepth hreads
  have hrest : (start.after (n + 1)).rest = [] := rest_eq_nil_of_reads_program hreads
  have hconfined : start.Confined tokens (start.after (n + 1)) :=
    confined_of_within hstart (within_after tokens (n + 1))
  have hindex : (start.after (n + 1)).index = tokens.length :=
    Nat.le_antisymm hconfined.index_le (List.drop_eq_nil_iff.1 (hconfined.rest ▸ hrest))
  have hend : Fails Parser.program (start.after (n + 1))
      (.unexpectedEnd .expression tokens.length) (start.after (n + 1)) := by
    rw [← hindex]
    refine fails_program_at_end hrest fun hzero => hne ?_
    rw [← List.length_eq_zero_iff, ← hindex, hzero]
  -- The attempt fails without a move, so the next one begins in the same place.
  have hstays (k : Nat) : start.after (n + 1 + k) = start.after (n + 1) := by
    induction k with
    | zero => rfl
    | succ k ih => rw [← Nat.add_assoc, Cursor.after_succ, ih, hend]
  refine ⟨hpasses.depth, hindex, fun k => ?_⟩
  rw [Cursor.answer, hstays, hend]

/-- **No attempt leaves its bounds**, however many there have been before, and whatever has come of
them. What the reader does on its way is done among the tokens and within the limit, it never goes
back, and it closes no parenthesis that it has not opened. An attempt that succeeds has come to the
end of the tokens, with no more parentheses open than before, and all later ones find nothing
there. -/
theorem attempts_confined (tokens : List Token) :
    let start := Cursor.ofTokens tokens
    (∀ n, attempts n start = (List.range n).map start.answer) ∧
    ∀ n, let c := start.after n
      let c' := start.after (n + 1)
      Parser.program.run c = (start.answer n, c') ∧
      Path c (Parser.program.journal c) c' ∧ c.Confined tokens c' ∧
      (∀ act v, (act, v) ∈ Parser.program.journal c →
        c.Confined tokens v ∧ c.Confined tokens (act.apply v) ∧
        v.index ≤ (act.apply v).index ∧
        (∀ k, act = .move (.advance k) → v.index + k ≤ tokens.length) ∧
        (act = .move .leave → c.depth < v.depth)) ∧
      (tokens ≠ [] → ∀ result, start.answer n = .ok result →
        c'.depth = c.depth ∧ c'.index = tokens.length ∧
        ∀ k, start.answer (n + 1 + k) = .error (.unexpectedEnd .expression tokens.length)) := by
  intro start
  refine ⟨fun n => attempts_eq n start, fun n => ?_⟩
  intro c c'
  have hc : start.Within c := within_after tokens n
  have hrun : Parser.program.run c = (start.answer n, c') := start.run_program_after n
  have hpath : Path c (Parser.program.journal c) c' := path_after start n
  have hsafe : Safe c Parser.program c := (sound_program hc.le_maxDepth).safe
  have hself : c.Within c := Cursor.within_refl hc.le_maxDepth
  refine ⟨hrun, hpath, confined_of_within hc (hpath.within hself hsafe), fun act v hmem => ?_,
    fun hne result => after_of_answer_eq_ok hne⟩
  have hallowed : Allowed c act v := hsafe act v hmem
  have happly : c.Confined tokens (act.apply v) := confined_of_within hc hallowed.within_apply
  refine ⟨confined_of_within hc hallowed.within, happly, act.index_le_apply v, fun k hact => ?_,
    fun hact => ?_⟩
  · subst hact
    exact happly.index_le
  · subst hact
    exact hallowed.sound

/-- The parenthesis of a call is missing, and the next attempt begins inside another one. It
succeeds, and there is nothing left for those that follow. -/
theorem attempts_confined_unopenedCall :
    let tokens : List Token := [⟨.openParen, "("⟩, ⟨.function, "f"⟩, ⟨.package, "a"⟩]
    let start := Cursor.ofTokens tokens
    start.answer 0 = .error (.unexpectedToken .openingCall ⟨.package, "a"⟩ 2) ∧
      start.answer 1 = .ok (some (package "a")) ∧
      (start.after 1).depth = 1 ∧ (start.after 2).depth = (start.after 1).depth ∧
      (start.after 2).index = 3 ∧
      ∀ k, start.answer (2 + k) = .error (.unexpectedEnd .expression 3) := by
  have hanswer : (Cursor.ofTokens [⟨.openParen, "("⟩, ⟨.function, "f"⟩, ⟨.package, "a"⟩]).answer 1 =
      .ok (some (package "a")) := rfl
  intro tokens start
  obtain ⟨-, hattempt⟩ := attempts_confined tokens
  obtain ⟨-, -, -, -, hok⟩ := hattempt 1
  exact ⟨rfl, hanswer, rfl, hok (by simp [tokens]) _ hanswer⟩

/-! ## Tokens of a text -/

/-- **In the tokens of a text, no call lacks its parenthesis, and every operator is a proper one.**
So no attempt to read a program from them ends for want of one of these, however many attempts have
failed before; if it fails because of a token, something else was expected there. -/
theorem tokenize_never_missing {text : String} {tokens : List Token}
    (h : tokenize text = .ok tokens) (n : Nat) :
    let start := Cursor.ofTokens tokens
    let c := start.after n
    let c' := start.after (n + 1)
    Path c (Parser.program.journal c) c' ∧
      (∀ v, (.missing .openingCall, v) ∉ Parser.program.journal c ∧
        (.missing .operator, v) ∉ Parser.program.journal c) ∧
      ∀ e, start.answer n = .error e → e.place? ≠ none →
        ∃ expected, expected ≠ .openingCall ∧ expected ≠ .operator ∧
          Fails (unexpected expected : ParseM (Option Expr)) c' e c' := by
  intro start c c'
  have hc : start.Within c := within_after tokens n
  have hrun : Parser.program.run c = (start.answer n, c') := start.run_program_after n
  have hwell : Token.WellFormed tokens := (Token.tokenize_eq_ok_iff.1 h).wellFormed
  have hsound (act : Act) (v : Cursor) (hmem : (act, v) ∈ Parser.program.journal c) :
      act.Sound start v :=
    (((sound_program hc.le_maxDepth).safe act v hmem).of_within hc).sound
  have hopening (v : Cursor) : (.missing .openingCall, v) ∉ Parser.program.journal c := by
    intro hmem
    obtain ⟨hsees, ts, name, hrest⟩ := hsound _ v hmem
    have hopens := hwell.opens ⟨.function, name⟩ v.rest ⟨ts, hrest.symm⟩ rfl
    obtain ⟨t, ht, hkind⟩ := Option.map_eq_some_iff.1 hopens
    obtain ⟨us, hus⟩ := List.head?_eq_some_iff.1 ht
    rw [Cursor.sees, hus] at hsees
    simp [hkind] at hsees
  have hoperator (v : Cursor) : (.missing .operator, v) ∉ Parser.program.journal c := by
    intro hmem
    obtain ⟨symbol, hsymbol, hnone⟩ := hsound _ v hmem
    obtain ⟨op, hop⟩ := exists_ofSymbol? (hwell.isProper _ hsymbol)
    rw [hop] at hnone
    cases hnone
  refine ⟨path_after start n, fun v => ⟨hopening v, hoperator v⟩,
    fun e he hplace => ?_⟩
  have hfails : Fails Parser.program c e c' := by
    rw [Fails, hrun, he]
  obtain ⟨expected, hmem, hunexpected⟩ := exists_missing_of_fails hfails hplace
  refine ⟨expected, ?_, ?_, hunexpected⟩
  · rintro rfl
    exact hopening c' hmem
  · rintro rfl
    exact hoperator c' hmem

/-- The second attempt begins where the first one has failed, at an operator inside a call. -/
theorem tokenize_never_missing_operand :
    let tokens : List Token :=
      [⟨.function, "f"⟩, ⟨.openParen, "("⟩, ⟨.operator, "-"⟩, ⟨.comma, ","⟩]
    let c := (Cursor.ofTokens tokens).after 1
    tokenize "f(-," = .ok tokens ∧ c.index = 2 ∧ c.depth = 1 ∧
      ∀ v, (.missing .openingCall, v) ∉ Parser.program.journal c ∧
        (.missing .operator, v) ∉ Parser.program.journal c := by
  intro tokens c
  have htokens : tokenize "f(-," = .ok tokens := Token.tokenize_of_toOption (by decide +kernel)
  obtain ⟨-, hnever, -⟩ := tokenize_never_missing htokens 1
  exact ⟨htokens, rfl, rfl, hnever⟩

end ImportQuery.Expr
