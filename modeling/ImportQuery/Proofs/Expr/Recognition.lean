import ImportQuery.Expr.Parser
import ImportQuery.Proofs.Expr.Grammar
import ImportQuery.Proofs.Expr.Height
import ImportQuery.Proofs.Expr.Reading

/-!
# The parser accepts the grammar

A reader recognizes a kind of phrase if it reads exactly the phrases of that kind, wherever they
are followed by a token that cannot belong to them (`Recognizes`). Every reader of the parser is
shown to recognize its syntactic category, given that the readers it is made of do. This module is
about the readers below parentheses.

* `recognizes_separated` : phrases with a separator between neighbours.
* `recognizes_chain` : terms between operators.
* `recognizes_juxtaposed` : chains without anything between them.
-/

namespace ImportQuery.Expr

open ParseM ImportQuery.Expr.Parser
open Token (startsWith)

/-- The reader `p` reads what `G` relates to the next tokens, and stops where none of `stops` comes
next. It reads all of it that none of `ends` follows. -/
structure RecognizesUntil {α : Type} (p : ParseM α) (G : α → List Token → Prop)
    (stops ends : List Token.Kind) : Prop where
  sound : ∀ {c : Cursor} {a : α} {c' : Cursor}, Reads p c a c' →
    ∃ ts, G a ts ∧ c.Passes ts c' ∧ startsWith stops c'.rest = false
  complete : ∀ {a : α} {ts us : List Token} {c : Cursor}, G a ts → c.rest = ts ++ us →
    startsWith ends us = false → ∃ c', Reads p c a c' ∧ c'.rest = us

/-- The reader `p` reads exactly what `G` relates to tokens that none of `stops` follows. -/
abbrev Recognizes {α : Type} (p : ParseM α) (G : α → List Token → Prop)
    (stops : List Token.Kind) : Prop :=
  RecognizesUntil p G stops stops

theorem sees_eq (c : Cursor) (kind : Token.Kind) : c.sees kind = startsWith [kind] c.rest := by
  unfold Cursor.sees
  cases c.rest with
  | nil => rfl
  | cons t ts => simp [Bool.beq_eq_decide_eq]

theorem startsChain_eq (c : Cursor) : startsChain c = startsWith moreKinds c.rest := by
  unfold startsChain
  simp only [sees_eq]
  cases c.rest with
  | nil => rfl
  | cons t ts => simp [moreKinds, Bool.or_assoc]

/-- A chain ends where neither a selector nor an operator comes next. -/
theorem startsWith_termKinds_eq_false {ts : List Token} :
    startsWith [.selector, .operator] ts = false ↔
      startsWith [.selector] ts = false ∧ startsWith [.operator] ts = false := by
  rw [show [Token.Kind.selector, .operator] = [.selector] ++ [.operator] from rfl,
    startsWith_union, Bool.or_eq_false_iff]

/-! ## Separated phrases -/

section

variable {α : Type} {item : ParseM α} {G : α → List Token → Prop}
  {stops ends : List Token.Kind} {separator : Token.Kind}

theorem RecognizesUntil.productive (h : RecognizesUntil item G stops ends) :
    Productive (·.sees separator) (do advance 1; item) where
  rest_ne_nil {c} hmore := by
    rw [sees_eq] at hmore
    exact ne_nil_of_startsWith hmore
  rest_length_lt {c a c'} hmore hreads := by
    obtain ⟨ts, -, hpasses, -⟩ := h.sound (reads_advance_bind.1 hreads)
    rw [sees_eq] at hmore
    have hpos := List.length_pos_iff.2 (ne_nil_of_startsWith hmore)
    have hlength := congrArg List.length hpasses.rest
    rw [Cursor.rest_advance, List.length_drop, List.length_append] at hlength
    omega

/-- What a repetition behind the separator reads: nothing, or a separator and separated phrases. -/
def SeparatedRest (separator : Token.Kind) (G : α → List Token → Prop) (as : List α)
    (ts : List Token) : Prop :=
  (as = [] ∧ ts = []) ∨ ∃ text us, ts = ⟨separator, text⟩ :: us ∧ Separated separator G as us

theorem RecognizesUntil.sound_rest (h : RecognizesUntil item G stops ends) {as : List α}
    {c c' : Cursor}
    (hreads : Reads (many (·.sees separator) (do advance 1; item)) c as c')
    (hstops : startsWith stops c.rest = false) :
    ∃ ts, SeparatedRest separator G as ts ∧ c.Passes ts c' ∧
      startsWith ([separator] ++ stops) c'.rest = false := by
  induction as generalizing c with
  | nil =>
    obtain ⟨hmore, rfl⟩ := h.productive.reads_many_nil.1 hreads
    rw [sees_eq] at hmore
    exact ⟨[], .inl ⟨rfl, rfl⟩, .nil c', by rw [startsWith_union, hmore, hstops, Bool.or_false]⟩
  | cons a as ih =>
    obtain ⟨hmore, d, hitem, hrest⟩ := h.productive.reads_many_cons.1 hreads
    rw [sees_eq] at hmore
    obtain ⟨text, ws, hc⟩ := startsWith_singleton.1 hmore
    obtain ⟨us, hus, hpasses, hstops'⟩ := h.sound (reads_advance_bind.1 hitem)
    obtain ⟨vs, hvs, hpasses', hend⟩ := ih hrest hstops'
    refine ⟨⟨separator, text⟩ :: (us ++ vs), .inr ⟨text, us ++ vs, rfl, ?_⟩,
      .cons hc (hpasses.append hpasses'), hend⟩
    rcases hvs with ⟨rfl, rfl⟩ | ⟨text', vs, rfl, hsep⟩
    · rw [List.append_nil]
      exact .last hus
    · exact .cons hus hsep

theorem RecognizesUntil.complete_rest (h : RecognizesUntil item G stops ends)
    (hk : separator ∉ ends) {as : List α} {text : String} {ts us : List Token} {c : Cursor}
    (hsep : Separated separator G as ts) (hrest : c.rest = ⟨separator, text⟩ :: (ts ++ us))
    (hend : startsWith ([separator] ++ ends) us = false) :
    ∃ c', Reads (many (·.sees separator) (do advance 1; item)) c as c' ∧ c'.rest = us := by
  have hmore : c.sees separator = true := by rw [sees_eq, hrest, startsWith_singleton]; simp
  induction hsep generalizing text c with
  | @last a ts ha =>
    obtain ⟨hsees, hstops⟩ : startsWith [separator] us = false ∧ startsWith ends us = false := by
      simpa only [startsWith_union, Bool.or_eq_false_iff] using hend
    have hitem : (c.advance 1).rest = ts ++ us := by rw [Cursor.rest_advance, hrest]; rfl
    obtain ⟨d, hd, rfl⟩ := h.complete ha hitem hstops
    refine ⟨d, h.productive.reads_many_cons.2 ⟨hmore, d, reads_advance_bind.2 hd, ?_⟩, rfl⟩
    exact h.productive.reads_many_nil.2 ⟨by rw [sees_eq, hsees], rfl⟩
  | @cons a as text' ts vs ha _ ih =>
    have hitem : (c.advance 1).rest = ts ++ ⟨separator, text'⟩ :: (vs ++ us) := by simp [hrest]
    obtain ⟨d, hd, hdrest⟩ := h.complete ha hitem (by simpa using hk)
    obtain ⟨c', hc', hc'rest⟩ := ih hdrest (by rw [sees_eq, hdrest, startsWith_singleton]; simp)
    exact ⟨c', h.productive.reads_many_cons.2 ⟨hmore, d, reads_advance_bind.2 hd, hc'⟩, hc'rest⟩

theorem recognizes_separated (h : RecognizesUntil item G stops ends) (hk : separator ∉ ends) :
    RecognizesUntil (separated separator item) (Separated separator G) ([separator] ++ stops)
      ([separator] ++ ends) where
  sound {c as c'} hreads := by
    obtain ⟨a, d, ha, hmany⟩ := reads_bind.1 hreads
    obtain ⟨bs, e, hbs, hpure⟩ := reads_bind.1 hmany
    obtain ⟨rfl, rfl⟩ := reads_pure.1 hpure
    obtain ⟨ts, hts, hpasses, hstops⟩ := h.sound ha
    obtain ⟨us, hus, hpasses', hend⟩ := h.sound_rest hbs hstops
    refine ⟨ts ++ us, ?_, hpasses.append hpasses', hend⟩
    rcases hus with ⟨rfl, rfl⟩ | ⟨text, us, rfl, hsep⟩
    · rw [List.append_nil]
      exact .last hts
    · exact .cons hts hsep
  complete {as ts us c} hsep hrest hend := by
    obtain ⟨hsees, hstops⟩ : startsWith [separator] us = false ∧ startsWith ends us = false := by
      simpa only [startsWith_union, Bool.or_eq_false_iff] using hend
    cases hsep with
    | @last a ts ha =>
      obtain ⟨d, hd, rfl⟩ := h.complete ha hrest hstops
      have hmany := h.productive.reads_many_nil.2 ⟨by rw [sees_eq, hsees], rfl⟩
      exact ⟨d, reads_bind.2 ⟨a, d, hd, reads_bind.2 ⟨[], d, hmany, reads_pure.2 ⟨rfl, rfl⟩⟩⟩, rfl⟩
    | @cons a as text ts vs ha hs =>
      have hitem : c.rest = ts ++ ⟨separator, text⟩ :: (vs ++ us) := by simp [hrest]
      obtain ⟨d, hd, hdrest⟩ := h.complete ha hitem (by simpa using hk)
      obtain ⟨c', hc', hc'rest⟩ := h.complete_rest hk hs hdrest hend
      exact ⟨c', reads_bind.2 ⟨a, d, hd, reads_bind.2 ⟨as, c', hc', reads_pure.2 ⟨rfl, rfl⟩⟩⟩,
        hc'rest⟩

end

/-! ## Terms and chains -/

section

variable {limit d room : Nat} {inner : Option (ParseM Expr)}

/-- Tokens are some selectors, and more tokens of which the first is none. -/
theorem exists_selectors (ts : List Token) :
    ∃ (chain : List String) (us : List Token),
      ts = chain.map (Token.mk .selector) ++ us ∧ startsWith [.selector] us = false := by
  induction ts with
  | nil => exact ⟨[], [], rfl, rfl⟩
  | cons t ts ih =>
    obtain ⟨kind, text⟩ := t
    by_cases hkind : kind = .selector
    · obtain ⟨chain, us, rfl, hus⟩ := ih
      exact ⟨text :: chain, us, by rw [hkind]; rfl, hus⟩
    · exact ⟨[], ⟨kind, text⟩ :: ts, rfl, by simpa using hkind⟩

theorem takeWhile_selectors {chain : List String} {us : List Token}
    (hus : startsWith [.selector] us = false) :
    (chain.map (Token.mk .selector) ++ us).takeWhile (·.kind == .selector) =
      chain.map (Token.mk .selector) := by
  rw [List.takeWhile_append_of_pos (by simp)]
  cases us with
  | nil => simp
  | cons t us =>
    have ht : (t.kind == .selector) = false := by simpa using hus
    simp only [List.takeWhile_cons, ht, Bool.false_eq_true, if_false, List.append_nil]

theorem recognizes_tags :
    Recognizes tags (fun chain ts => ts = chain.map (Token.mk .selector)) [.selector] where
  sound {c chain c'} hreads := by
    rw [tags, reads_cursor_bind, reads_advance_bind, reads_pure] at hreads
    obtain ⟨chain', us, hrest, hus⟩ := exists_selectors c.rest
    rw [hrest, takeWhile_selectors hus] at hreads
    obtain ⟨rfl, rfl⟩ := hreads
    refine ⟨chain'.map (Token.mk .selector), by simp, Cursor.passes_advance hrest, ?_⟩
    rw [Cursor.rest_advance, hrest, List.drop_left, hus]
  complete {chain ts us c} hts hrest hstops := by
    subst hts
    refine ⟨c.advance (chain.map (Token.mk .selector)).length, ?_, ?_⟩
    · rw [tags, reads_cursor_bind, reads_advance_bind, reads_pure, hrest,
        takeWhile_selectors hstops]
      simp [Function.comp_def]
    · rw [Cursor.rest_advance, hrest, List.drop_left]

theorem recognizes_term
    (h : Recognizes (primary inner) (fun e => Derives limit d (.primary e)) []) :
    Recognizes (term inner) (fun e => Derives limit d (.term e)) [.selector] where
  sound {c e c'} hreads := by
    obtain ⟨base, d, hbase, hrest⟩ := reads_bind.1 hreads
    obtain ⟨chain, d', htags, hpure⟩ := reads_bind.1 hrest
    obtain ⟨ts, hts, hpasses, -⟩ := h.sound hbase
    obtain ⟨us, rfl, hpasses', hstops⟩ := recognizes_tags.sound htags
    cases chain with
    | nil =>
      obtain ⟨rfl, rfl⟩ := reads_pure.1 hpure
      exact ⟨ts, .bare hts, by simpa using hpasses.append hpasses', hstops⟩
    | cons tag chain =>
      obtain ⟨rfl, rfl⟩ := reads_pure.1 hpure
      exact ⟨_, .selected hts (by simp), hpasses.append hpasses', hstops⟩
  complete {e ts us c} hder hrest hstops := by
    cases hder with
    | bare hbase =>
      obtain ⟨d, hd, rfl⟩ := h.complete hbase hrest startsWith_kinds_nil
      obtain ⟨d', hd', hrest'⟩ := recognizes_tags.complete (c := d) (a := []) rfl rfl hstops
      exact ⟨d', reads_bind.2 ⟨e, d, hd, reads_bind.2 ⟨[], d', hd', reads_pure.2 ⟨rfl, rfl⟩⟩⟩,
        hrest'⟩
    | @selected _ base chain ts hbase hchain =>
      rw [List.append_assoc] at hrest
      obtain ⟨d, hd, hdrest⟩ := h.complete hbase hrest startsWith_kinds_nil
      obtain ⟨d', hd', hrest'⟩ := recognizes_tags.complete rfl hdrest hstops
      refine ⟨d', reads_bind.2 ⟨base, d, hd, reads_bind.2 ⟨chain, d', hd', ?_⟩⟩, hrest'⟩
      cases chain with
      | nil => exact absurd rfl hchain
      | cons tag chain => exact reads_pure.2 ⟨rfl, rfl⟩

section

variable {term : ParseM Expr} {clock : Nat} {chain chain' : Chain} {c c' : Cursor}

/-- A chain ends where no operator follows. -/
theorem reads_chainFor_end (h : startsWith [.operator] c.rest = false) :
    Reads (chainFor room term (clock + 1) chain) c chain' c' ↔ chain' = chain ∧ c' = c := by
  rw [chainFor, reads_cursor_bind]
  split
  · rename_i hrest
    rw [hrest] at h
    cases h
  · exact reads_pure

/-- A chain goes on where an operator follows, with a term that fits. -/
theorem reads_chainFor_operator {symbol : String} {us : List Token}
    (h : c.rest = ⟨.operator, symbol⟩ :: us) :
    Reads (chainFor room term (clock + 1) chain) c chain' c' ↔
      ∃ op right d, symbol = op.symbol.toString ∧ Reads term (c.advance 1) right d ∧
        (chain.join op right).height ≤ room ∧
        Reads (chainFor room term clock (chain.join op right)) d chain' c' := by
  rw [chainFor, reads_cursor_bind, h]
  dsimp only
  rcases hop : SetOp.ofSymbol? symbol with _ | op
  · constructor
    · intro hreads
      exact absurd hreads not_reads_unexpected
    · rintro ⟨op, _, _, rfl, -⟩
      rw [SetOp.ofSymbol?_eq_some_iff.2 rfl] at hop
      cases hop
  · refine reads_advance_bind.trans (reads_bind.trans ?_)
    constructor
    · rintro ⟨right, d, hright, hnext⟩
      split at hnext
      · exact absurd hnext not_reads_tooDeep
      · rename_i hfits
        exact ⟨op, right, d, SetOp.ofSymbol?_eq_some_iff.1 hop, hright, Nat.not_lt.1 hfits, hnext⟩
    · rintro ⟨op', right, d, rfl, hright, hfits, hnext⟩
      obtain rfl : op' = op :=
        Option.some.inj ((SetOp.ofSymbol?_eq_some_iff.2 rfl).symm.trans hop)
      exact ⟨right, d, hright, by rwa [if_neg (Nat.not_lt.2 hfits)]⟩

end

theorem Chain.join_ofTerm (left : Expr) (op : SetOp) (right : Expr) :
    (Chain.ofTerm left).join op right = .ofTerm (.binary op left right) := by
  rw [Chain.ofTerm, Chain.ofTerm, Chain.join, height_binary]

theorem height_le_grouped (left : Expr) (rest : List (SetOp × Expr)) :
    left.height ≤ (grouped left rest).height := by
  induction rest generalizing left with
  | nil => exact Nat.le_refl _
  | cons operand rest ih =>
    have hbinary := height_binary operand.1 left operand.2
    have hgrouped := ih (.binary operand.1 left operand.2)
    have hcons : grouped left (operand :: rest) =
        grouped (.binary operand.1 left operand.2) rest := rfl
    rw [hcons]
    omega

section

variable {term : ParseM Expr}
  (hterm : Recognizes term (fun e => Derives limit d (.term e)) [.selector])

include hterm

theorem sound_chainFor {clock : Nat} {left : Expr} {chain : Chain} {c c' : Cursor}
    (hclock : c.rest.length ≤ clock) (hstops : startsWith [.selector] c.rest = false)
    (hreads : Reads (chainFor room term clock (.ofTerm left)) c chain c') :
    ∃ rest ts, Derives limit d (.operands rest) ts ∧ c.Passes ts c' ∧
      startsWith [.selector, .operator] c'.rest = false ∧ chain.tree = grouped left rest ∧
      (rest ≠ [] → (grouped left rest).height ≤ room) := by
  induction clock generalizing left c with
  | zero =>
    obtain ⟨rfl, rfl⟩ := reads_pure.1 hreads
    refine ⟨[], [], .noOperand, .nil c', ?_, rfl, fun h => absurd rfl h⟩
    rw [List.length_eq_zero_iff.1 (Nat.le_zero.1 hclock)]
    rfl
  | succ clock ih =>
    by_cases hop : startsWith [.operator] c.rest = false
    · obtain ⟨rfl, rfl⟩ := (reads_chainFor_end hop).1 hreads
      refine ⟨[], [], .noOperand, .nil c', ?_, rfl, fun h => absurd rfl h⟩
      exact startsWith_termKinds_eq_false.2 ⟨hstops, hop⟩
    · obtain ⟨symbol, us, hrest⟩ := startsWith_singleton.1 (by simpa using hop)
      obtain ⟨op, right, d', rfl, hright, hfits, hnext⟩ :=
        (reads_chainFor_operator hrest).1 hreads
      obtain ⟨ts, hts, hpasses, hstops'⟩ := hterm.sound hright
      have hclock' : d'.rest.length ≤ clock := by
        have hlength := congrArg List.length hpasses.rest
        rw [Cursor.rest_advance, hrest, List.length_drop, List.length_cons,
          List.length_append] at hlength
        rw [hrest, List.length_cons] at hclock
        omega
      rw [Chain.join_ofTerm] at hfits hnext
      obtain ⟨rest, vs, hvs, hpasses', hend, htree, hheight⟩ := ih hclock' hstops' hnext
      refine ⟨(op, right) :: rest, _, .operand hts hvs, .cons hrest (hpasses.append hpasses'), hend,
        htree, fun _ => ?_⟩
      cases rest with
      | nil => exact hfits
      | cons => exact hheight (by simp)

theorem complete_chainFor {clock : Nat} {left : Expr} {rest : List (SetOp × Expr)} {c : Cursor}
    {ts us : List Token} (hclock : c.rest.length ≤ clock)
    (hder : Derives limit d (.operands rest) ts) (hrest : c.rest = ts ++ us)
    (hend : startsWith [.selector, .operator] us = false)
    (hfits : rest ≠ [] → (grouped left rest).height ≤ room) :
    ∃ chain c', Reads (chainFor room term clock (.ofTerm left)) c chain c' ∧
      chain.tree = grouped left rest ∧ c'.rest = us := by
  obtain ⟨hsel, hop⟩ := startsWith_termKinds_eq_false.1 hend
  induction rest generalizing left c clock ts with
  | nil =>
    cases hder
    rw [List.nil_append] at hrest
    refine ⟨.ofTerm left, c, ?_, rfl, hrest⟩
    cases clock with
    | zero => exact reads_pure.2 ⟨rfl, rfl⟩
    | succ clock => exact (reads_chainFor_end (by rw [hrest, hop])).2 ⟨rfl, rfl⟩
  | cons operand rest ih =>
    cases hder with
    | @operand _ op right _ ts vs hright hvs =>
      cases clock with
      | zero => simp [hrest] at hclock
      | succ clock =>
        have hstops : startsWith [.selector] (vs ++ us) = false :=
          startsWith_append_of_disjoint hvs.begins (by decide) hsel
        have hitem : (c.advance 1).rest = ts ++ (vs ++ us) := by
          rw [Cursor.rest_advance, hrest]
          exact List.append_assoc ..
        obtain ⟨d', hd', hrest'⟩ := hterm.complete hright hitem hstops
        have hclock' : d'.rest.length ≤ clock := by
          rw [hrest, List.cons_append, List.length_cons, List.append_assoc,
            List.length_append] at hclock
          rw [hrest']
          omega
        obtain ⟨chain, c', hnext, htree, hc'⟩ := ih hclock' hvs hrest' fun h => hfits (by simp)
        refine ⟨chain, c', (reads_chainFor_operator hrest).2 ⟨op, right, d', rfl, hd', ?_, ?_⟩,
          htree, hc'⟩
        · rw [Chain.join_ofTerm]
          exact Nat.le_trans (height_le_grouped (.binary op left right) rest) (hfits (by simp))
        · rw [Chain.join_ofTerm]
          exact hnext

end

theorem recognizes_chain (hroom : d + room = limit)
    (h : Recognizes (term inner) (fun e => Derives limit d (.term e)) [.selector]) :
    Recognizes (Parser.chain room inner) (fun e => Derives limit d (.chain e))
      [.selector, .operator] where
  sound {c e c'} hreads := by
    obtain ⟨first, d₁, hfirst, hrest⟩ := reads_bind.1 hreads
    rw [reads_cursor_bind] at hrest
    obtain ⟨chain, d₂, hchain, hpure⟩ := reads_bind.1 hrest
    obtain ⟨rfl, rfl⟩ := reads_pure.1 hpure
    obtain ⟨ts, hts, hpasses, hstops⟩ := h.sound hfirst
    obtain ⟨rest, us, hus, hpasses', hend, htree, hheight⟩ :=
      sound_chainFor h (Nat.le_refl _) hstops hchain
    refine ⟨ts ++ us, ?_, hpasses.append hpasses', hend⟩
    rw [htree]
    cases rest with
    | nil =>
      cases hus
      rw [List.append_nil]
      exact .single hts
    | cons operand rest =>
      have hfits := hheight (by simp)
      exact .chain hts hus (by simp) (by omega)
  complete {e ts us c} hder hrest hend := by
    have hread : ∀ {first : Expr} {rest : List (SetOp × Expr)} {ts₁ ts₂ : List Token},
        Derives limit d (.term first) ts₁ → Derives limit d (.operands rest) ts₂ →
        ts = ts₁ ++ ts₂ → (rest ≠ [] → (grouped first rest).height ≤ room) →
        ∃ c', Reads (Parser.chain room inner) c (grouped first rest) c' ∧ c'.rest = us := by
      rintro first rest ts₁ ts₂ hfirst hoperands rfl hfits
      have hstops : startsWith [.selector] (ts₂ ++ us) = false :=
        startsWith_append_of_disjoint hoperands.begins (by decide)
          (startsWith_termKinds_eq_false.1 hend).1
      rw [List.append_assoc] at hrest
      obtain ⟨d₁, hd₁, hrest₁⟩ := h.complete hfirst hrest hstops
      obtain ⟨chain, c', hchain, htree, hc'⟩ :=
        complete_chainFor h (Nat.le_refl _) hoperands hrest₁ hend hfits
      exact ⟨c', reads_bind.2 ⟨first, d₁, hd₁, reads_cursor_bind.2 (reads_bind.2
        ⟨chain, c', hchain, reads_pure.2 ⟨htree.symm, rfl⟩⟩)⟩, hc'⟩
    cases hder with
    | single hterm => exact hread hterm .noOperand (List.append_nil _).symm fun h => absurd rfl h
    | chain hterm hoperands _ hfits => exact hread hterm hoperands rfl fun _ => by omega

/-- The tokens that go on with a list. -/
def listKinds : List Token.Kind := [.selector, .operator] ++ moreKinds

section

variable {chain : ParseM Expr}
  (hchain : Recognizes chain (fun e => Derives limit d (.chain e)) [.selector, .operator])

include hchain

theorem productive_chain : Productive startsChain chain where
  rest_ne_nil {c} hmore := by
    rw [startsChain_eq] at hmore
    exact ne_nil_of_startsWith hmore
  rest_length_lt {c e c'} _ hreads := by
    obtain ⟨ts, hts, hpasses, -⟩ := hchain.sound hreads
    have hpos := List.length_pos_iff.2 (ne_nil_of_startsWith hts.begins)
    rw [hpasses.rest, List.length_append]
    omega

theorem sound_more {es : List Expr} {c c' : Cursor}
    (hreads : Reads (many startsChain chain) c es c')
    (hstops : startsWith [.selector, .operator] c.rest = false) :
    ∃ ts, Derives limit d (.more es) ts ∧ c.Passes ts c' ∧
      startsWith listKinds c'.rest = false := by
  induction es generalizing c with
  | nil =>
    obtain ⟨hmore, rfl⟩ := (productive_chain hchain).reads_many_nil.1 hreads
    rw [startsChain_eq] at hmore
    exact ⟨[], .noMore, .nil c', by rw [listKinds, startsWith_union, hstops, hmore, Bool.or_false]⟩
  | cons e es ih =>
    obtain ⟨hmore, d', he, hes⟩ := (productive_chain hchain).reads_many_cons.1 hreads
    obtain ⟨ts, hts, hpasses, hstops'⟩ := hchain.sound he
    obtain ⟨us, hus, hpasses', hend⟩ := ih hes hstops'
    rw [startsChain_eq, hpasses.rest, startsWith_append (ne_nil_of_startsWith hts.begins)] at hmore
    exact ⟨ts ++ us, .more hts (startsWith_of_disjoint hmore (by decide)) hus,
      hpasses.append hpasses', hend⟩

theorem complete_more {es : List Expr} {c : Cursor} {ts us : List Token}
    (hder : Derives limit d (.more es) ts) (hrest : c.rest = ts ++ us)
    (hend : startsWith listKinds us = false) :
    ∃ c', Reads (many startsChain chain) c es c' ∧ c'.rest = us := by
  obtain ⟨hstops, hmore⟩ : startsWith [.selector, .operator] us = false ∧
      startsWith moreKinds us = false := by
    simpa only [listKinds, startsWith_union, Bool.or_eq_false_iff] using hend
  induction es generalizing c ts with
  | nil =>
    cases hder
    rw [List.nil_append] at hrest
    refine ⟨c, (productive_chain hchain).reads_many_nil.2 ⟨?_, rfl⟩, hrest⟩
    rw [startsChain_eq, hrest, hmore]
  | cons e es ih =>
    have hbegins : startsWith moreKinds ts = true := by
      rcases hder.begins with ⟨hnil, -⟩ | hbegins
      · cases hnil
      · exact hbegins
    cases hder with
    | @more _ _ _ ts₁ ts₂ he hop hes =>
      have hstops' : startsWith [.selector, .operator] (ts₂ ++ us) = false :=
        startsWith_append_of_disjoint (hes.begins.imp_left And.right) (by decide) hstops
      rw [List.append_assoc] at hrest
      obtain ⟨d', hd', hrest'⟩ := hchain.complete he hrest hstops'
      obtain ⟨c', hc', hrest''⟩ := ih hes hrest'
      refine ⟨c', (productive_chain hchain).reads_many_cons.2 ⟨?_, d', hd', hc'⟩, hrest''⟩
      rw [startsChain_eq, hrest, ← List.append_assoc]
      exact startsWith_append_of hbegins

end

theorem recognizes_juxtaposed
    (hchain : Recognizes (Parser.chain room inner) (fun e => Derives limit d (.chain e))
      [.selector, .operator]) :
    Recognizes (juxtaposed room inner) (fun e => Derives limit d (.list e)) listKinds where
  sound {c e c'} hreads := by
    obtain ⟨first, d₁, hfirst, hrest⟩ := reads_bind.1 hreads
    obtain ⟨more, d₂, hmore, hpure⟩ := reads_bind.1 hrest
    obtain ⟨ts, hts, hpasses, hstops⟩ := hchain.sound hfirst
    obtain ⟨us, hus, hpasses', hend⟩ := sound_more hchain hmore hstops
    cases more with
    | nil =>
      obtain ⟨rfl, rfl⟩ := reads_pure.1 hpure
      cases hus
      exact ⟨ts ++ [], by simpa using hts.alone, hpasses.append hpasses', hend⟩
    | cons e es =>
      obtain ⟨rfl, rfl⟩ := reads_pure.1 hpure
      exact ⟨ts ++ us, .juxtaposed hts hus (by simp), hpasses.append hpasses', hend⟩
  complete {e ts us c} hder hrest hend := by
    have hstops : startsWith [.selector, .operator] us = false ∧
        startsWith moreKinds us = false := by
      simpa only [listKinds, startsWith_union, Bool.or_eq_false_iff] using hend
    cases hder with
    | alone hfirst =>
      obtain ⟨d₁, hd₁, hrest₁⟩ := hchain.complete hfirst hrest hstops.1
      obtain ⟨c', hmore, hc'⟩ := complete_more hchain .noMore
        (show d₁.rest = [] ++ us from hrest₁) hend
      exact ⟨c', reads_bind.2 ⟨e, d₁, hd₁, reads_bind.2 ⟨[], c', hmore, reads_pure.2 ⟨rfl, rfl⟩⟩⟩,
        hc'⟩
    | @juxtaposed _ first more ts₁ ts₂ hfirst hmore hne =>
      have hstops' : startsWith [.selector, .operator] (ts₂ ++ us) = false :=
        startsWith_append_of_disjoint (hmore.begins.imp_left And.right) (by decide) hstops.1
      rw [List.append_assoc] at hrest
      obtain ⟨d₁, hd₁, hrest₁⟩ := hchain.complete hfirst hrest hstops'
      obtain ⟨c', hreads, hc'⟩ := complete_more hchain hmore hrest₁ hend
      refine ⟨c', reads_bind.2 ⟨first, d₁, hd₁, reads_bind.2 ⟨more, c', hreads, ?_⟩⟩, hc'⟩
      cases more with
      | nil => exact absurd rfl hne
      | cons => exact reads_pure.2 ⟨rfl, rfl⟩

end

end ImportQuery.Expr
