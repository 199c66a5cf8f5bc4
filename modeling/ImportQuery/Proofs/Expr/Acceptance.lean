import ImportQuery.Proofs.Expr.Brackets

/-!
# The parser accepts the grammar

Statements and programs are read like lists, except that an assignment sign may not stand behind
them. With that, the parser accepts the tokens that the grammar derives, and finds their tree.

* `recognizes_statements` : statements between semicolons.
* `parse_eq_ok_iff` : the parser finds a tree where the grammar derives it.
* `DerivesProgram.unique` : the grammar derives no second tree, whatever the limit.
-/

namespace ImportQuery.Expr

open ParseM ImportQuery.Expr.Parser
open Token (startsWith)

variable {limit : Nat}

/-! ## Statements -/

theorem reads_statement_assign {room : Nat} {c c' : Cursor} {e : Expr} {name sign : String}
    {us : List Token} (h : c.rest = ⟨.package, name⟩ :: ⟨.assign, sign⟩ :: us) :
    Reads (Parser.statement room) c e c' ↔ ∃ value d, e = .assign name value ∧
      Reads (Parser.list room) (c.advance 2) value d ∧
      c' = { d with trace := d.trace ++ [.readAssignment name] } := by
  rw [Parser.statement, reads_cursor_bind, h]
  refine reads_advance_bind.trans (reads_bind.trans ?_)
  constructor
  · rintro ⟨value, d, hvalue, hreads⟩
    obtain ⟨_, d', hreport, hpure⟩ := reads_bind.1 hreads
    obtain ⟨rfl, rfl⟩ := reads_pure.1 hpure
    exact ⟨value, d, rfl, hvalue, reads_report.1 hreport⟩
  · rintro ⟨value, d, rfl, hvalue, rfl⟩
    exact ⟨value, d, hvalue, reads_bind.2 ⟨(), _, reads_report.2 rfl, reads_pure.2 ⟨rfl, rfl⟩⟩⟩

theorem reads_statement_list {room : Nat} {c c' : Cursor} {e : Expr}
    (h : ∀ name sign us, c.rest ≠ ⟨.package, name⟩ :: ⟨.assign, sign⟩ :: us) :
    Reads (Parser.statement room) c e c' ↔ Reads (Parser.list room) c e c' := by
  rw [Parser.statement, reads_cursor_bind]
  split
  · rename_i hrest
    exact absurd hrest (h _ _ _)
  · rfl

/-- A list has no assignment sign behind its first token, unless one follows it. -/
theorem Derives.ne_assignment {d : Nat} {e : Expr} {ts us : List Token}
    (h : Derives limit d (.list e) ts) (hus : startsWith [.assign] us = false)
    (name sign : String) (vs : List Token) :
    ts ++ us ≠ ⟨.package, name⟩ :: ⟨.assign, sign⟩ :: vs := by
  intro htokens
  match ts, h with
  | [], h => exact h.ne_nil_of_list rfl
  | [_], _ =>
    obtain ⟨-, rfl⟩ := List.cons.inj htokens
    simp at hus
  | _ :: t :: _, h =>
    obtain ⟨-, htail⟩ := List.cons.inj htokens
    obtain ⟨rfl, -⟩ := List.cons.inj htail
    exact (h.kind_ne ⟨.assign, sign⟩ (by simp)).1 rfl

/-- A list that is a statement is not followed by an assignment sign, which might make its only
token the name of an assignment. -/
theorem recognizes_statement {d room : Nat} (hroom : d + room = limit) :
    RecognizesUntil (Parser.statement room) (DerivesStatement limit d) listKinds
      (listKinds ++ [.assign]) where
  sound {c e c'} hreads := by
    by_cases hassign : ∃ name sign us, c.rest = ⟨.package, name⟩ :: ⟨.assign, sign⟩ :: us
    · obtain ⟨name, sign, us, hrest⟩ := hassign
      obtain ⟨value, d₁, rfl, hvalue, rfl⟩ := (reads_statement_assign hrest).1 hreads
      obtain ⟨ts, hts, hpasses, hend⟩ := (recognizes_list hroom).sound hvalue
      have hname : c.Passes [⟨.package, name⟩, ⟨.assign, sign⟩] (c.advance 2) :=
        Cursor.passes_advance hrest
      have hall := hname.append hpasses
      exact ⟨_, .assign hts, ⟨hall.rest, hall.index, hall.depth⟩, hend⟩
    · have hlist : ∀ name sign us, c.rest ≠ ⟨.package, name⟩ :: ⟨.assign, sign⟩ :: us :=
        fun name sign us hrest => hassign ⟨name, sign, us, hrest⟩
      obtain ⟨ts, hts, hpasses, hend⟩ :=
        (recognizes_list hroom).sound ((reads_statement_list hlist).1 hreads)
      exact ⟨ts, .list hts, hpasses, hend⟩
  complete {e ts us c} hder hrest hend := by
    obtain ⟨hlist, hassign⟩ : startsWith listKinds us = false ∧
        startsWith [.assign] us = false := by
      simpa only [startsWith_union, Bool.or_eq_false_iff] using hend
    cases hder with
    | list hts =>
      obtain ⟨c', hreads, hc'⟩ := (recognizes_list hroom).complete hts hrest hlist
      have hne := hts.ne_assignment hassign
      rw [← hrest] at hne
      exact ⟨c', (reads_statement_list hne).2 hreads, hc'⟩
    | @assign name sign value ts hts =>
      have hvalue : (c.advance 2).rest = ts ++ us := by
        rw [Cursor.rest_advance, hrest]
        rfl
      obtain ⟨d₁, hreads, hc'⟩ := (recognizes_list hroom).complete hts hvalue hlist
      exact ⟨_, (reads_statement_assign hrest).2 ⟨value, d₁, rfl, hreads, rfl⟩, hc'⟩

theorem recognizes_statements {d room : Nat} (hroom : d + room = limit) :
    RecognizesUntil (Parser.statements room)
      (Separated .semicolon (DerivesStatement limit d)) ([.semicolon] ++ listKinds)
      ([.semicolon] ++ (listKinds ++ [.assign])) :=
  recognizes_separated (recognizes_statement hroom) (by decide)

/-! ## Programs -/

/-- The tree of a program of the given statements. -/
def ofStatements : List Expr → Expr
  | [s] => s
  | ss => .program ss

theorem reads_program {c c' : Cursor} {e : Expr} :
    Reads Parser.program c (some e) c' ↔ ∃ ss d, ¬(c.index = 0 ∧ c.rest = []) ∧
      Reads (Parser.statements (maxDepth - c.depth)) c ss d ∧ d.rest = [] ∧
      (∀ s ∈ ss.dropLast, s.isAssignment = true) ∧ e = ofStatements ss ∧
      c' = { d with trace := d.trace ++ [.readProgram ss.length] } := by
  have hassign : ∀ ss : List Expr, ss.dropLast.findIdx? (!·.isAssignment) = none ↔
      ∀ s ∈ ss.dropLast, s.isAssignment = true := fun ss => by
    simp [List.findIdx?_eq_none_iff]
  rw [Parser.program, reads_cursor_bind]
  dsimp only
  split
  · rename_i hempty
    simp [hempty]
  rename_i hsome
  constructor
  · intro hreads
    obtain ⟨ss, d, hss, hreads⟩ := reads_bind.1 hreads
    rw [reads_cursor_bind] at hreads
    split at hreads
    · obtain ⟨_, _, hunexpected, -⟩ := reads_bind.1 hreads
      exact absurd hunexpected not_reads_unexpected
    rename_i hrest
    split at hreads
    · exact absurd hreads not_reads_fail
    rename_i hnone
    obtain ⟨_, d', hreport, hreads⟩ := reads_bind.1 hreads
    obtain rfl := reads_report.1 hreport
    refine ⟨ss, d, hsome, hss, Decidable.not_not.1 hrest, (hassign ss).1 hnone, ?_⟩
    split at hreads
    · obtain ⟨he, rfl⟩ := reads_pure.1 hreads
      exact ⟨Option.some.inj he, rfl⟩
    · rename_i hne
      obtain ⟨he, rfl⟩ := reads_pure.1 hreads
      refine ⟨(Option.some.inj he).trans ?_, rfl⟩
      unfold ofStatements
      split
      · exact absurd rfl (hne _)
      · rfl
  · rintro ⟨ss, d, -, hss, hrest, hall, rfl, rfl⟩
    refine reads_bind.2 ⟨ss, d, hss, ?_⟩
    rw [reads_cursor_bind, if_neg (Decidable.not_not.2 hrest), (hassign ss).2 hall]
    refine reads_bind.2 ⟨(), _, reads_report.2 rfl, ?_⟩
    rcases ss with _ | ⟨s, _ | ⟨s', ss⟩⟩ <;> exact reads_pure.2 ⟨rfl, rfl⟩

theorem derivesProgram_iff {tokens : List Token} {e : Expr} :
    DerivesProgram limit e tokens ↔ ∃ ss,
      Separated .semicolon (DerivesStatement limit 0) ss tokens ∧
      (∀ s ∈ ss.dropLast, s.isAssignment = true) ∧ e = ofStatements ss := by
  constructor
  · intro h
    cases h with
    | single h => exact ⟨[e], .last h, by simp, rfl⟩
    | @several ss _ h hss hall =>
      refine ⟨ss, h, hall, ?_⟩
      unfold ofStatements
      split
      · simp at hss
      · rfl
  · rintro ⟨ss, h, hall, rfl⟩
    cases h with
    | last h => exact .single h
    | @cons s ss _ _ _ h hs =>
      have hlength := hs.length_pos
      cases ss with
      | nil => simp at hlength
      | cons => exact .several (.cons h hs) (by simp) hall

/-- A cursor before the first token reads a program where the tokens are one. -/
theorem reads_program_iff {tokens : List Token} {e : Expr} :
    (∃ c', Reads Parser.program (.ofTokens tokens) (some e) c') ↔
      DerivesProgram maxDepth e tokens := by
  have hroom : 0 + maxDepth = maxDepth := Nat.zero_add _
  rw [derivesProgram_iff]
  constructor
  · rintro ⟨c', hreads⟩
    obtain ⟨ss, d, -, hss, hrest, hall, rfl, -⟩ := reads_program.1 hreads
    obtain ⟨ts, hts, hpasses, -⟩ := (recognizes_statements hroom).sound hss
    have htokens : tokens = ts := by
      have h := hpasses.rest
      rwa [hrest, List.append_nil] at h
    exact ⟨ss, htokens ▸ hts, hall, rfl⟩
  · rintro ⟨ss, hss, hall, rfl⟩
    have htokens : (Cursor.ofTokens tokens).rest = tokens ++ [] := (List.append_nil _).symm
    obtain ⟨d, hreads, hrest⟩ := (recognizes_statements hroom).complete hss htokens rfl
    have hne : tokens ≠ [] := hss.ne_nil fun _ _ => DerivesStatement.ne_nil
    exact ⟨_, reads_program.2 ⟨ss, d, fun h => hne h.2, hreads, hrest, hall, rfl, rfl⟩⟩

theorem parse_eq_ok_iff {tokens : List Token} {e : Expr} :
    parse tokens = .ok (some e) ↔ DerivesProgram maxDepth e tokens := by
  rw [← reads_program_iff]
  constructor
  · intro h
    exact ⟨_, Prod.ext h rfl⟩
  · rintro ⟨c', hreads⟩
    exact congrArg Prod.fst hreads

/-- The grammar derives at most one tree from some tokens. -/
theorem DerivesProgram.unique {tokens : List Token} {e e' : Expr}
    (h : DerivesProgram limit e tokens) (h' : DerivesProgram limit e' tokens) : e = e' := by
  obtain ⟨ss, hss, -, rfl⟩ := derivesProgram_iff.1 h
  obtain ⟨ss', hss', -, rfl⟩ := derivesProgram_iff.1 h'
  have hroom : 0 + limit = limit := Nat.zero_add _
  have htokens : (Cursor.ofTokens tokens).rest = tokens ++ [] := (List.append_nil _).symm
  obtain ⟨c, hreads, -⟩ := (recognizes_statements hroom).complete hss htokens rfl
  obtain ⟨c', hreads', -⟩ := (recognizes_statements hroom).complete hss' htokens rfl
  rw [(hreads.unique hreads').1]

/-- **The parser accepts exactly the grammar.** It finds a tree where the grammar derives the tree
from the tokens, and the grammar derives no other tree from them. -/
theorem parse_accepts_grammar (tokens : List Token) (e : Expr) :
    (parse tokens = .ok (some e) ↔ DerivesProgram maxDepth e tokens) ∧
      ∀ e₁ e₂, DerivesProgram maxDepth e₁ tokens → DerivesProgram maxDepth e₂ tokens → e₁ = e₂ :=
  ⟨parse_eq_ok_iff, fun _ _ => DerivesProgram.unique⟩

end ImportQuery.Expr
