import ImportQuery.Proofs.Expr.Acceptance
import ImportQuery.Proofs.Expr.Forms
import ImportQuery.Proofs.Expr.Running
import ImportQuery.Proofs.Token.Spelling

/-!
# What has been read when reading stops

A reader that fails with an error that points at a token has stopped there, and the tokens before
it begin a phrase of the reader's category. Which tokens complete it depends on everything that is
still open where the reader stops: each reader completes what the readers inside it have begun.

* `Diagnosed` : an error with this property.
* `Diagnoses` : readers whose errors have it.
* `diagnoses_list` and `diagnoses_program` : lists and programs.
-/

namespace ImportQuery.Expr

open ParseM ImportQuery.Expr.Parser
open Token (startsWith)

/-! ## Beginnings of phrases -/

section

variable {G H : List Token → Prop} {ts us : List Token}

theorem Begun.after (h : Begun H ts) (himp : ∀ vs, H vs → G (us ++ vs)) : Begun G (us ++ ts) := by
  obtain ⟨vs, hop, hvs⟩ := h
  exact ⟨vs, hop, by rw [List.append_assoc]; exact himp _ hvs⟩

theorem Begun.before (h : Begun H ts) (hop : startsWith [.operator] us = false)
    (himp : ∀ vs, H vs → G (vs ++ us)) : Begun G ts := by
  obtain ⟨vs, hop', hvs⟩ := h
  refine ⟨vs ++ us, ?_, by rw [← List.append_assoc]; exact himp _ hvs⟩
  cases vs with
  | nil => exact hop
  | cons => exact hop'

end

/-! ## Errors and what stands before them -/

/-- All the tokens to be read are proper ones. -/
def Cursor.Proper (c : Cursor) : Prop := ∀ t ∈ c.rest, t.isProper = true

theorem Cursor.Leads.proper {c c' : Cursor} {ts : List Token} (h : c.Leads ts c')
    (hc : c.Proper) : c'.Proper := by
  intro t ht
  exact hc t (by rw [h.rest]; exact List.mem_append_right _ ht)

theorem exists_ofSymbol? {symbol : String} (h : (Token.mk .operator symbol).isProper = true) :
    ∃ op, SetOp.ofSymbol? symbol = some op := by
  obtain rfl | rfl : symbol = "+" ∨ symbol = "-" := by simpa [Token.isProper] using h
  · exact ⟨_, rfl⟩
  · exact ⟨_, rfl⟩

/-- If the error points at a token, it is the next one at `c'`, and the tokens between `c` and `c'`
begin what `G` says. -/
def Diagnosed (G : List Token → Prop) (c : Cursor) (e : ParseError) (c' : Cursor) : Prop :=
  e.place? = none ∨ e.PointsAt c' ∧ ∃ ts, c.Leads ts c' ∧ Begun G ts

section

variable {G H : List Token → Prop} {c d c' : Cursor} {e : ParseError} {us : List Token}

theorem Diagnosed.behind (h : Diagnosed H d e c') (hlead : c.Leads us d)
    (himp : ∀ vs, H vs → G (us ++ vs)) : Diagnosed G c e c' := by
  obtain hplace | ⟨hpoints, ts, hts, hbegun⟩ := h
  · exact .inl hplace
  · exact .inr ⟨hpoints, us ++ ts, hlead.append hts, hbegun.after himp⟩

theorem Diagnosed.imp (h : Diagnosed H c e c') (himp : ∀ vs, H vs → G vs) : Diagnosed G c e c' :=
  h.behind (.nil c) himp

theorem Diagnosed.before (h : Diagnosed H c e c') (hop : startsWith [.operator] us = false)
    (himp : ∀ vs, H vs → G (vs ++ us)) : Diagnosed G c e c' := by
  obtain hplace | ⟨hpoints, ts, hts, hbegun⟩ := h
  · exact .inl hplace
  · exact .inr ⟨hpoints, ts, hts, hbegun.before hop himp⟩

/-- An unexpected token stands behind what can be continued without it. -/
theorem diagnosed_unexpected {α : Type} {expected : Expected}
    (h : Fails (unexpected expected : ParseM α) d e c') (hlead : c.Leads us d)
    (hbegun : Begun G us) : Diagnosed G c e c' := by
  obtain ⟨hpoints, rfl⟩ := fails_unexpected h
  exact .inr ⟨hpoints, us, hlead, hbegun⟩

theorem diagnosed_tooDeep {α : Type} (h : Fails (tooDeep : ParseM α) d e c') :
    Diagnosed G c e c' := by
  obtain ⟨rfl, rfl⟩ := fails_tooDeep.1 h
  exact .inl rfl

end

/-- The errors of the reader point at tokens behind what begins a `G`. -/
def Diagnoses {α : Type} (p : ParseM α) (G : List Token → Prop) : Prop :=
  ∀ ⦃c : Cursor⦄ ⦃e : ParseError⦄ ⦃c' : Cursor⦄, c.Proper → Fails p c e c' → Diagnosed G c e c'

/-! ## Rows -/

section

variable {α : Type} {item : ParseM α} {F : α → List Token → Prop} {G : List Token → Prop}
  {stops ends : List Token.Kind} {separator : Token.Kind}
  (h : RecognizesUntil item F stops ends) (hF : ∀ a ts, F a ts → G ts) (hitem : Diagnoses item G)

include h hF hitem

theorem diagnoses_rest :
    Diagnoses (many (·.sees separator) (do advance 1; item)) (RowRest separator G) := by
  intro c e c' hc hfails
  induction hn : c.rest.length using Nat.strongRecOn generalizing c with
  | ind n ih =>
    obtain ⟨hmore, hfails⟩ := h.productive.fails_many.1 hfails
    obtain ⟨text, ws, hrest⟩ := startsWith_singleton.1 ((sees_eq c separator).symm.trans hmore)
    have hlead : c.Leads [⟨separator, text⟩] (c.advance 1) := Cursor.leads_advance hrest
    obtain hfails | ⟨a, d, hreads, hfails⟩ := hfails
    · exact (hitem (hlead.proper hc) (fails_advance_bind.1 hfails)).behind hlead
        fun vs hvs => .inr ⟨text, vs, rfl, .last hvs⟩
    · obtain ⟨ts, hts, hpasses, -⟩ := h.sound (reads_advance_bind.1 hreads)
      have hlead' := hlead.append hpasses.leads
      have hlt := h.productive.rest_length_lt hmore hreads
      exact (ih _ (by omega) (hlead'.proper hc) hfails rfl).behind hlead'
        fun vs hvs => .inr ⟨text, ts ++ vs, rfl, row_append (hF a ts hts) hvs⟩

theorem diagnoses_separated : Diagnoses (separated separator item) (Row separator G) := by
  intro c e c' hc hfails
  obtain hfails | ⟨a, d, hreads, hfails⟩ := fails_bind.1 hfails
  · exact (hitem hc hfails).imp fun _ => .last
  obtain ⟨ts, hts, hpasses, -⟩ := h.sound hreads
  obtain hfails | ⟨as, d', -, hfails⟩ := fails_bind.1 hfails
  · exact (diagnoses_rest h hF hitem (hpasses.leads.proper hc) hfails).behind hpasses.leads
      fun _ => row_append (hF a ts hts)
  · exact absurd hfails not_fails_pure

end

/-! ## Parentheses -/

section

variable {limit d room : Nat} {inner : Option (ParseM Expr)}

/-- What goes wrong in a parenthesis is one of its items, or does not end it. -/
theorem fails_bracketed {list : ParseM Expr} {mayBeEmpty : Bool} {closing : Expected}
    {c c' : Cursor} {e : ParseError}
    (h : Fails (bracketed (some list) mayBeEmpty closing) c e c') :
    Fails (items list) c.deeper e c' ∨ ∃ es d, Reads (items list) c.deeper es d ∧
      Fails (unexpected closing : ParseM Unit) d e c' := by
  have hclosed {es : List Expr} {d : Cursor}
      (h : Fails (do expect .closeParen closing; leave; return es : ParseM (List Expr)) d e c') :
      d.sees .closeParen = false ∧ Fails (unexpected closing : ParseM Unit) d e c' := by
    obtain h | ⟨_, _, -, h⟩ := fails_bind.1 h
    · exact fails_expect.1 h
    · obtain h | ⟨_, _, -, h⟩ := fails_bind.1 h
      · exact absurd h not_fails_move
      · exact absurd h not_fails_pure
  rw [bracketed] at h
  obtain h | ⟨_, d, henter, h⟩ := fails_bind.1 h
  · exact absurd h not_fails_move
  obtain rfl : d = c.deeper := reads_enter.1 henter
  rw [fails_cursor_bind] at h
  dsimp only at h
  split at h
  · rename_i hnothing
    obtain h | ⟨_, d, hpure, h⟩ := fails_bind.1 h
    · exact absurd h not_fails_pure
    · obtain ⟨-, rfl⟩ := reads_pure.1 hpure
      rw [(hclosed h).1, Bool.and_false] at hnothing
      cases hnothing
  · obtain h | ⟨es, d, hes, h⟩ := fails_bind.1 h
    · exact .inl h
    · exact .inr ⟨es, d, hes, (hclosed h).2⟩

theorem diagnoses_bracketed (h : RecognizesInside limit d inner)
    (hinner : ∀ list ∈ inner, Diagnoses list (Forms .list)) (mayBeEmpty : Bool)
    (closing : Expected) : Diagnoses (bracketed inner mayBeEmpty closing) (Forms .contents) := by
  intro c e c' hc hfails
  cases inner with
  | none => exact diagnosed_tooDeep hfails
  | some list =>
    obtain ⟨-, hlist⟩ := h
    have hF : ∀ e ts, Derives limit (d + 1) (.list e) ts → Forms .list ts :=
      fun _ _ => Derives.formed
    have hcontents : ∀ vs, Row .comma (Forms .list) vs →
        Forms .contents (vs ++ [⟨.closeParen, ")"⟩]) :=
      fun _ hvs => .contents (forms_items_iff.2 hvs)
    obtain hfails | ⟨es, d', hes, hfails⟩ := fails_bracketed hfails
    · have hitems := diagnoses_separated hlist hF (hinner list rfl) (c := c.deeper) hc hfails
      have hopen : c.Leads [] c.deeper := ⟨rfl, rfl⟩
      exact (hitems.before rfl hcontents).behind hopen fun _ hvs => hvs
    · obtain ⟨ts, hts, hpasses, -⟩ :=
        (recognizes_separated hlist (show Token.Kind.comma ∉ listKinds by decide)).sound hes
      refine diagnosed_unexpected hfails ⟨hpasses.rest, hpasses.index⟩ ?_
      exact (Begun.of_forms (hts.row hF)).before rfl hcontents

/-! ## Primaries and terms -/

variable (h : RecognizesInside limit d inner)
  (hinner : ∀ list ∈ inner, Diagnoses list (Forms .list))

include h hinner

theorem diagnoses_primary : Diagnoses (primary inner) (Forms .primary) := by
  intro c e c' hc hfails
  have hbracketed {mayBeEmpty : Bool} {closing : Expected} {d' : Cursor} {us : List Token}
      (hlead : c.Leads us d') (hfails : Fails (bracketed inner mayBeEmpty closing) d' e c')
      (himp : ∀ vs, Forms .contents vs → Forms .primary (us ++ vs)) :
      Diagnosed (Forms .primary) c e c' :=
    (diagnoses_bracketed h hinner mayBeEmpty closing (hlead.proper hc) hfails).behind hlead himp
  rw [primary, fails_cursor_bind] at hfails
  split at hfails
  · exact absurd (fails_advance_bind.1 hfails) not_fails_pure
  · rename_i name us hrest
    have hlead : c.Leads [⟨.function, name⟩] (c.advance 1) := Cursor.leads_advance hrest
    obtain hfails | ⟨_, d', hopening, hfails⟩ := fails_bind.1 (fails_advance_bind.1 hfails)
    · exact diagnosed_unexpected (fails_expect.1 hfails).2 hlead
        ⟨[⟨.openParen, "("⟩, ⟨.closeParen, ")"⟩], rfl, .callNothing⟩
    · obtain ⟨hsees, rfl⟩ := reads_expect.1 hopening
      rw [sees_eq] at hsees
      obtain ⟨opening, vs, hrest'⟩ := startsWith_singleton.1 hsees
      have hopen : (c.advance 1).Leads [⟨.openParen, opening⟩] ((c.advance 1).advance 1) :=
        Cursor.leads_advance hrest'
      obtain hfails | ⟨_, _, -, hfails⟩ := fails_bind.1 hfails
      · exact hbracketed (hlead.append hopen) hfails fun _ => .call
      · exact absurd hfails not_fails_pure
  · rename_i symbol opening us hrest
    obtain ⟨op, hop⟩ := exists_ofSymbol? (hc ⟨.operator, symbol⟩ (by simp [hrest]))
    obtain rfl := SetOp.ofSymbol?_eq_some_iff.1 hop
    have hlead : c.Leads [⟨.operator, op.symbol.toString⟩] (c.advance 1) :=
      Cursor.leads_advance hrest
    have hopen : (c.advance 1).Leads [⟨.openParen, opening⟩] ((c.advance 1).advance 1) :=
      Cursor.leads_advance (by rw [Cursor.rest_advance, hrest]; rfl)
    rw [fails_advance_bind, hop] at hfails
    obtain hfails | ⟨_, _, -, hfails⟩ := fails_bind.1 (fails_advance_bind.1 hfails)
    · exact hbracketed (hlead.append hopen) hfails fun _ => .prefixed
    · split at hfails
      · exact absurd hfails not_fails_pure
      · obtain ⟨rfl, -⟩ := fails_fail.1 hfails
        exact .inl rfl
  · rename_i opening us hrest
    have hlead : c.Leads [⟨.openParen, opening⟩] (c.advance 1) := Cursor.leads_advance hrest
    obtain hfails | ⟨_, _, -, hfails⟩ := fails_bind.1 (fails_advance_bind.1 hfails)
    · exact hbracketed hlead hfails fun _ => .group
    · split at hfails <;> exact absurd hfails not_fails_pure
  · exact diagnosed_unexpected hfails (.nil c) ⟨[⟨.package, "a"⟩], rfl, .package⟩

theorem diagnoses_term : Diagnoses (term inner) (Forms .term) := by
  intro c e c' hc hfails
  obtain hfails | ⟨_, _, -, hfails⟩ := fails_bind.1 hfails
  · refine (diagnoses_primary h hinner hc hfails).imp fun vs hvs => ?_
    simpa using Forms.term hvs []
  obtain hfails | ⟨_, _, -, hfails⟩ := fails_bind.1 hfails
  · rw [tags, fails_cursor_bind, fails_advance_bind] at hfails
    exact absurd hfails not_fails_pure
  · split at hfails <;> exact absurd hfails not_fails_pure

/-! ## Chains -/

theorem diagnoses_chainFor (clock : Nat) (chain : Chain) :
    Diagnoses (chainFor room (term inner) clock chain) (Forms .operands) := by
  intro c e c' hc hfails
  induction clock generalizing c chain with
  | zero => exact absurd hfails not_fails_pure
  | succ clock ih =>
    rw [chainFor, fails_cursor_bind] at hfails
    split at hfails
    · rename_i symbol us hrest
      obtain ⟨op, hop⟩ := exists_ofSymbol? (hc ⟨.operator, symbol⟩ (by simp [hrest]))
      obtain rfl := SetOp.ofSymbol?_eq_some_iff.1 hop
      have hlead : c.Leads [⟨.operator, op.symbol.toString⟩] (c.advance 1) :=
        Cursor.leads_advance hrest
      rw [hop] at hfails
      obtain hfails | ⟨right, d', hright, hfails⟩ := fails_bind.1 (fails_advance_bind.1 hfails)
      · refine (diagnoses_term h hinner (hlead.proper hc) hfails).behind hlead fun vs hvs => ?_
        simpa using Forms.operand hvs .noOperand
      · obtain ⟨ts, hts, hpasses, -⟩ := (recognizes_term (recognizes_primary h)).sound hright
        have hlead' := hlead.append hpasses.leads
        dsimp only at hfails
        split at hfails
        · exact diagnosed_tooDeep hfails
        · exact (ih _ (hlead'.proper hc) hfails).behind hlead' fun _ => .operand hts.formed
    · exact absurd hfails not_fails_pure

theorem diagnoses_chain : Diagnoses (Parser.chain room inner) (Forms .chain) := by
  intro c e c' hc hfails
  obtain hfails | ⟨first, d', hfirst, hfails⟩ := fails_bind.1 hfails
  · refine (diagnoses_term h hinner hc hfails).imp fun vs hvs => ?_
    simpa using Forms.chain hvs .noOperand
  obtain ⟨ts, hts, hpasses, -⟩ := (recognizes_term (recognizes_primary h)).sound hfirst
  rw [fails_cursor_bind] at hfails
  obtain hfails | ⟨_, _, -, hfails⟩ := fails_bind.1 hfails
  · exact (diagnoses_chainFor h hinner _ _ (hpasses.leads.proper hc) hfails).behind hpasses.leads
      fun _ => .chain hts.formed
  · exact absurd hfails not_fails_pure

/-! ## Lists -/

variable (hroom : d + room = limit)

include hroom

theorem diagnoses_more : Diagnoses (many startsChain (Parser.chain room inner)) (Forms .more) := by
  have hchain := recognizes_chain hroom (recognizes_term (recognizes_primary h))
  intro c e c' hc hfails
  induction hn : c.rest.length using Nat.strongRecOn generalizing c with
  | ind n ih =>
    obtain ⟨hmore, hfails⟩ := (productive_chain hchain).fails_many.1 hfails
    have hstarts : startsWith moreKinds c.rest = true := (startsChain_eq c).symm.trans hmore
    obtain hfails | ⟨a, d', hreads, hfails⟩ := hfails
    · obtain hplace | ⟨hpoints, ts, hlead, us, hop, hus⟩ := diagnoses_chain h hinner hc hfails
      · exact .inl hplace
      · refine .inr ⟨hpoints, ts, hlead, us, hop, ?_⟩
        have hop' : startsWith [.operator] (ts ++ us) = false := by
          cases ts with
          | nil => exact hop
          | cons t ts =>
            rw [hlead.rest] at hstarts
            exact startsWith_of_disjoint hstarts (by decide)
        simpa using Forms.more hus hop' .noMore
    · obtain ⟨ts, hts, hpasses, -⟩ := hchain.sound hreads
      have hlt := (productive_chain hchain).rest_length_lt hmore hreads
      rw [hpasses.rest, startsWith_append (ne_nil_of_startsWith hts.begins)] at hstarts
      exact (ih _ (by omega) (hpasses.leads.proper hc) hfails rfl).behind hpasses.leads
        fun _ => .more hts.formed (startsWith_of_disjoint hstarts (by decide))

theorem diagnoses_juxtaposed : Diagnoses (juxtaposed room inner) (Forms .list) := by
  intro c e c' hc hfails
  obtain hfails | ⟨first, d', hfirst, hfails⟩ := fails_bind.1 hfails
  · refine (diagnoses_chain h hinner hc hfails).imp fun vs hvs => ?_
    simpa using Forms.list hvs .noMore
  obtain ⟨ts, hts, hpasses, -⟩ :=
    (recognizes_chain hroom (recognizes_term (recognizes_primary h))).sound hfirst
  obtain hfails | ⟨_, _, -, hfails⟩ := fails_bind.1 hfails
  · exact (diagnoses_more h hinner hroom (hpasses.leads.proper hc) hfails).behind hpasses.leads
      fun _ => .list hts.formed
  · split at hfails <;> exact absurd hfails not_fails_pure

end

section

variable {limit d room : Nat}

theorem diagnoses_list (hroom : d + room = limit) :
    Diagnoses (Parser.list room) (Forms .list) := by
  induction room generalizing d with
  | zero =>
    rw [list_eq]
    exact diagnoses_juxtaposed (recognizesInside hroom) (by simp [inside]) hroom
  | succ room ih =>
    rw [list_eq]
    refine diagnoses_juxtaposed (recognizesInside hroom) (fun list hlist => ?_) hroom
    obtain rfl := Option.some.inj hlist
    exact ih (d := d + 1) (by omega)

/-! ## Statements and programs -/

theorem diagnoses_statement (hroom : d + room = limit) :
    Diagnoses (Parser.statement room) (Forms .statement) := by
  intro c e c' hc hfails
  rw [Parser.statement, fails_cursor_bind] at hfails
  split at hfails
  · rename_i name sign us hrest
    have hlead : c.Leads [⟨.package, name⟩, ⟨.assign, sign⟩] (c.advance 2) :=
      Cursor.leads_advance hrest
    obtain hfails | ⟨_, _, -, hfails⟩ := fails_bind.1 (fails_advance_bind.1 hfails)
    · exact (diagnoses_list hroom (hlead.proper hc) hfails).behind hlead fun _ => .assign
    · obtain hfails | ⟨_, _, -, hfails⟩ := fails_bind.1 hfails
      · exact absurd hfails not_fails_move
      · exact absurd hfails not_fails_pure
  · exact (diagnoses_list hroom hc hfails).imp fun _ => .bare

theorem diagnoses_statements (hroom : d + room = limit) :
    Diagnoses (Parser.statements room) (Forms .program) := by
  intro c e c' hc hfails
  have hstatements := diagnoses_separated (recognizes_statement hroom)
    (fun _ _ hs => hs.forms) (diagnoses_statement hroom) hc hfails
  exact hstatements.imp fun _ => forms_program_iff.2

end

/-- The tokens before the one that an error points at begin a program. -/
theorem diagnoses_program : Diagnoses Parser.program (Forms .program) := by
  intro c e c' hc hfails
  have hroom : c.depth + (maxDepth - c.depth) = max c.depth maxDepth := by omega
  obtain hfails | ⟨ss, hss, -, hpoints⟩ | hplace := fails_program hfails
  · exact diagnoses_statements hroom hc hfails
  · obtain ⟨ts, hts, hpasses, -⟩ := (recognizes_statements hroom).sound hss
    have hprogram : Row .semicolon (Forms .statement) ts := hts.row fun _ _ hs => hs.forms
    exact .inr ⟨hpoints, ts, hpasses.leads, .of_forms (forms_program_iff.2 hprogram)⟩
  · exact .inl hplace

end ImportQuery.Expr
