import ImportQuery.Proofs.Expr.Recognition

/-!
# Parentheses

The readers of parentheses and of what begins with one. Inside a parenthesis there is room for one
less, so that the recursion on the room that is left closes the circle of readers.

* `recognizes_bracketed` : the contents of a parenthesis, up to its end.
* `recognizes_primary` : packages, calls, operators before their operands, and groups.
* `recognizes_list` : whole lists.
-/

namespace ImportQuery.Expr

open ParseM ImportQuery.Expr.Parser
open Token (startsWith)

/-! ## Parentheses -/

section

variable {limit d : Nat} {inner : Option (ParseM Expr)}

/-- What stands behind an opening parenthesis, up to its end. -/
inductive Bracketed (limit d : Nat) (mayBeEmpty : Bool) : List Expr → List Token → Prop
  | nothing {closing : String} (hd : d < limit) (hempty : mayBeEmpty = true) :
    Bracketed limit d mayBeEmpty [] [⟨.closeParen, closing⟩]
  | items {es : List Expr} {closing : String} {ts : List Token} (hd : d < limit)
    (h : Derives limit (d + 1) (.items es) ts) :
    Bracketed limit d mayBeEmpty es (ts ++ [⟨.closeParen, closing⟩])

/-- The reader for lists inside parentheses recognizes them, and there is one unless no parenthesis
may be opened. -/
def RecognizesInside (limit d : Nat) : Option (ParseM Expr) → Prop
  | none => limit ≤ d
  | some list => d < limit ∧ Recognizes list (fun e => Derives limit (d + 1) (.list e)) listKinds

theorem derives_items_iff {es : List Expr} {ts : List Token} :
    Derives limit d (.items es) ts ↔
      Separated .comma (fun e => Derives limit d (.list e)) es ts := by
  constructor
  · intro h
    induction es generalizing ts with
    | nil => cases h
    | cons e es ih =>
      cases h with
      | lastItem h => exact .last h
      | item h hs => exact .cons h (ih hs)
  · intro h
    induction h with
    | last h => exact .lastItem h
    | cons h _ ih => exact .item h ih

/-- The cursor with one more parenthesis open. -/
def Cursor.deeper (c : Cursor) : Cursor := { c with depth := c.depth + 1 }

theorem reads_closed (closing : Expected) {p : ParseM (List Expr)} {es : List Expr}
    {c c' : Cursor} :
    Reads (do let contents ← p; expect .closeParen closing; leave; return contents) c es c' ↔
      ∃ d, Reads p c es d ∧ d.sees .closeParen = true ∧
        c' = { d.advance 1 with depth := d.depth - 1 } := by
  constructor
  · intro hreads
    obtain ⟨contents, d, hp, hreads⟩ := reads_bind.1 hreads
    obtain ⟨_, d₁, hexpect, hreads⟩ := reads_bind.1 hreads
    obtain ⟨_, d₂, hleave, hpure⟩ := reads_bind.1 hreads
    obtain ⟨rfl, rfl⟩ := reads_pure.1 hpure
    obtain ⟨hsees, rfl⟩ := reads_expect.1 hexpect
    exact ⟨d, hp, hsees, reads_leave.1 hleave⟩
  · rintro ⟨d, hp, hsees, rfl⟩
    exact reads_bind.2 ⟨es, d, hp, reads_bind.2 ⟨(), _, reads_expect.2 ⟨hsees, rfl⟩,
      reads_bind.2 ⟨(), _, reads_leave.2 rfl, reads_pure.2 ⟨rfl, rfl⟩⟩⟩⟩

theorem reads_bracketed {list : ParseM Expr} {mayBeEmpty : Bool} {closing : Expected}
    {es : List Expr} {c c' : Cursor} :
    Reads (bracketed (some list) mayBeEmpty closing) c es c' ↔
      ∃ d, Reads (if mayBeEmpty && c.deeper.sees .closeParen then pure [] else items list)
          c.deeper es d ∧ d.sees .closeParen = true ∧
        c' = { d.advance 1 with depth := d.depth - 1 } := by
  rw [← reads_closed closing, bracketed, reads_bind]
  constructor
  · rintro ⟨_, d, henter, hreads⟩
    obtain rfl : d = c.deeper := reads_enter.1 henter
    rw [reads_cursor_bind] at hreads
    dsimp only at hreads
    split at hreads
    · rename_i hnothing
      rwa [if_pos hnothing]
    · rename_i hitems
      rwa [if_neg hitems]
  · intro hreads
    refine ⟨(), c.deeper, reads_enter.2 rfl, reads_cursor_bind.2 ?_⟩
    dsimp only
    split
    · rename_i hnothing
      rwa [if_pos hnothing] at hreads
    · rename_i hitems
      rwa [if_neg hitems] at hreads

/-- A parenthesis is passed with its end. -/
theorem Cursor.Passes.closed {c d : Cursor} {ts us : List Token} {closing : String}
    (h : c.deeper.Passes ts d) (hrest : d.rest = ⟨.closeParen, closing⟩ :: us) :
    c.Passes (ts ++ [⟨.closeParen, closing⟩]) { d.advance 1 with depth := d.depth - 1 } where
  rest := by
    rw [List.append_assoc]
    exact h.rest.trans (by rw [hrest]; simp [hrest])
  index := by
    have hindex : d.index = c.index + ts.length := h.index
    simp only [Cursor.index_advance, hindex, List.length_append, List.length_singleton,
      Nat.add_assoc]
  depth := by
    have hdepth : d.depth = c.depth + 1 := h.depth
    rw [hdepth, Nat.add_sub_cancel]

theorem recognizes_bracketed (h : RecognizesInside limit d inner) (mayBeEmpty : Bool)
    (closing : Expected) :
    Recognizes (bracketed inner mayBeEmpty closing) (Bracketed limit d mayBeEmpty) [] where
  sound {c es c'} hreads := by
    cases inner with
    | none => exact absurd hreads not_reads_tooDeep
    | some list =>
      obtain ⟨hd, hlist⟩ := h
      obtain ⟨d', hcontents, hsees, rfl⟩ := reads_bracketed.1 hreads
      rw [sees_eq] at hsees
      obtain ⟨text, us, hrest⟩ := startsWith_singleton.1 hsees
      split at hcontents
      · rename_i hnothing
        obtain ⟨rfl, rfl⟩ := reads_pure.1 hcontents
        exact ⟨_, .nothing hd (Bool.and_eq_true_iff.1 hnothing).1,
          (Cursor.Passes.nil _).closed hrest, startsWith_kinds_nil⟩
      · obtain ⟨ts, hts, hpasses, -⟩ :=
          (recognizes_separated hlist (show Token.Kind.comma ∉ listKinds by decide)).sound hcontents
        exact ⟨_, .items hd (derives_items_iff.2 hts), hpasses.closed hrest, startsWith_kinds_nil⟩
  complete {es ts us c} hder hrest hend := by
    cases inner with
    | none =>
      have hd : d < limit := by cases hder <;> assumption
      exact absurd h (Nat.not_le.2 hd)
    | some list =>
      obtain ⟨hd, hlist⟩ := h
      cases hder with
      | nothing _ hempty =>
        have hsees : c.deeper.sees .closeParen = true := by
          rw [sees_eq, startsWith_singleton]
          exact ⟨_, _, hrest⟩
        refine ⟨_, reads_bracketed.2 ⟨c.deeper, ?_, hsees, rfl⟩, by
          rw [Cursor.rest_advance]
          exact congrArg (List.drop 1) hrest⟩
        rw [if_pos (Bool.and_eq_true_iff.2 ⟨hempty, hsees⟩)]
        exact reads_pure.2 ⟨rfl, rfl⟩
      | @items _ text ts _ hitems =>
        have hsees : c.deeper.sees .closeParen = false := by
          rw [sees_eq, show c.deeper.rest = c.rest from rfl, hrest, List.append_assoc]
          exact startsWith_of_disjoint (startsWith_append_of hitems.begins) (by decide)
        rw [List.append_assoc] at hrest
        obtain ⟨d', hcontents, hrest'⟩ :=
          (recognizes_separated hlist (show Token.Kind.comma ∉ listKinds by decide)).complete
            (derives_items_iff.1 hitems) (show c.deeper.rest = _ from hrest)
            (by rfl)
        refine ⟨_, reads_bracketed.2 ⟨d', ?_, ?_, rfl⟩, ?_⟩
        · rw [hsees, Bool.and_false, if_neg (by simp)]
          exact hcontents
        · rw [sees_eq, hrest', startsWith_singleton]
          exact ⟨_, _, rfl⟩
        · rw [Cursor.rest_advance, hrest']
          rfl

theorem derives_bracket_iff {es : List Expr} {ts : List Token} :
    Derives limit d (.bracket es) ts ↔
      ∃ opening us, ts = ⟨.openParen, opening⟩ :: us ∧ Bracketed limit d false es us := by
  constructor
  · intro h
    cases h with
    | bracket hd h => exact ⟨_, _, rfl, .items hd h⟩
  · rintro ⟨opening, us, rfl, h⟩
    cases h with
    | nothing _ hempty => cases hempty
    | items hd h => exact .bracket hd h

theorem Bracketed.mayBeEmpty {es : List Expr} {ts : List Token}
    (h : Bracketed limit d false es ts) : Bracketed limit d true es ts := by
  cases h with
  | nothing hd _ => exact .nothing hd rfl
  | items hd h => exact .items hd h

theorem Bracketed.length_pos {es : List Expr} {ts : List Token}
    (h : Bracketed limit d false es ts) : 0 < es.length := by
  cases h with
  | nothing _ hempty => cases hempty
  | items _ h => cases h <;> simp

/-! ## Primaries -/

theorem reads_primary_package {c c' : Cursor} {e : Expr} {name : String} {us : List Token}
    (h : c.rest = ⟨.package, name⟩ :: us) :
    Reads (primary inner) c e c' ↔ e = .package name ∧ c' = c.advance 1 := by
  rw [primary, reads_cursor_bind, h]
  exact reads_advance_bind.trans reads_pure

theorem reads_primary_function {c c' : Cursor} {e : Expr} {name : String} {us : List Token}
    (h : c.rest = ⟨.function, name⟩ :: us) :
    Reads (primary inner) c e c' ↔ ∃ es opening vs, us = ⟨.openParen, opening⟩ :: vs ∧
      e = .call name es ∧
      Reads (bracketed inner true .closingCall) ((c.advance 1).advance 1) es c' := by
  rw [primary, reads_cursor_bind, h]
  dsimp only
  have hrest : (c.advance 1).rest = us := by rw [Cursor.rest_advance, h]; rfl
  rw [reads_advance_bind, reads_bind]
  constructor
  · rintro ⟨_, d, hexpect, hreads⟩
    obtain ⟨hsees, rfl⟩ := reads_expect.1 hexpect
    rw [sees_eq, hrest] at hsees
    obtain ⟨opening, vs, rfl⟩ := startsWith_singleton.1 hsees
    obtain ⟨es, d, hes, hpure⟩ := reads_bind.1 hreads
    obtain ⟨rfl, rfl⟩ := reads_pure.1 hpure
    exact ⟨es, opening, vs, rfl, rfl, hes⟩
  · rintro ⟨es, opening, vs, rfl, rfl, hes⟩
    have hsees : (c.advance 1).sees .openParen = true := by
      rw [sees_eq, hrest, startsWith_singleton]
      exact ⟨_, _, rfl⟩
    exact ⟨(), (c.advance 1).advance 1, reads_expect.2 ⟨hsees, rfl⟩,
      reads_bind.2 ⟨es, c', hes, reads_pure.2 ⟨rfl, rfl⟩⟩⟩

theorem reads_primary_operator {c c' : Cursor} {e : Expr} {symbol opening : String}
    {us : List Token} (h : c.rest = ⟨.operator, symbol⟩ :: ⟨.openParen, opening⟩ :: us) :
    Reads (primary inner) c e c' ↔ ∃ op left right, symbol = op.symbol.toString ∧
      e = .binary op left right ∧
      Reads (bracketed inner false .closingOperands) ((c.advance 1).advance 1)
        [left, right] c' := by
  rw [primary, reads_cursor_bind, h]
  dsimp only
  rw [reads_advance_bind]
  rcases hop : SetOp.ofSymbol? symbol with _ | op
  · constructor
    · intro hreads
      exact absurd hreads not_reads_unexpected
    · rintro ⟨op, _, _, rfl, -⟩
      rw [SetOp.ofSymbol?_eq_some_iff.2 rfl] at hop
      cases hop
  · dsimp only
    rw [reads_advance_bind, reads_bind]
    constructor
    · rintro ⟨es, d, hes, hmatch⟩
      split at hmatch
      · rename_i left right
        obtain ⟨rfl, rfl⟩ := reads_pure.1 hmatch
        exact ⟨op, left, right, SetOp.ofSymbol?_eq_some_iff.1 hop, rfl, hes⟩
      · exact absurd hmatch not_reads_fail
    · rintro ⟨op', left, right, rfl, rfl, hes⟩
      obtain rfl : op' = op :=
        Option.some.inj ((SetOp.ofSymbol?_eq_some_iff.2 rfl).symm.trans hop)
      exact ⟨[left, right], c', hes, reads_pure.2 ⟨rfl, rfl⟩⟩

theorem reads_primary_group {c c' : Cursor} {e : Expr} {opening : String} {us : List Token}
    (h : c.rest = ⟨.openParen, opening⟩ :: us) :
    Reads (primary inner) c e c' ↔ ∃ es,
      (es = [e] ∨ (es.length ≠ 1 ∧ e = .call "" es)) ∧
      Reads (bracketed inner false .closingGroup) (c.advance 1) es c' := by
  rw [primary, reads_cursor_bind, h]
  refine reads_advance_bind.trans (reads_bind.trans ?_)
  constructor
  · rintro ⟨es, d, hes, hmatch⟩
    split at hmatch
    · obtain ⟨rfl, rfl⟩ := reads_pure.1 hmatch
      exact ⟨_, .inl rfl, hes⟩
    · rename_i hne
      obtain ⟨rfl, rfl⟩ := reads_pure.1 hmatch
      refine ⟨es, .inr ⟨fun hlength => ?_, rfl⟩, hes⟩
      obtain ⟨e, rfl⟩ := List.length_eq_one_iff.1 hlength
      exact hne e rfl
  · rintro ⟨es, rfl | ⟨hlength, rfl⟩, hes⟩
    · exact ⟨[e], c', hes, reads_pure.2 ⟨rfl, rfl⟩⟩
    · refine ⟨es, c', hes, ?_⟩
      split
      · exact absurd rfl hlength
      · exact reads_pure.2 ⟨rfl, rfl⟩

theorem recognizes_primary (h : RecognizesInside limit d inner) :
    Recognizes (primary inner) (fun e => Derives limit d (.primary e)) [] where
  sound {c e c'} hreads := by
    have hreads' := hreads
    rw [primary, reads_cursor_bind] at hreads'
    split at hreads'
    · rename_i name us hrest
      obtain ⟨rfl, rfl⟩ := (reads_primary_package hrest).1 hreads
      exact ⟨_, .package, Cursor.passes_advance hrest, startsWith_kinds_nil⟩
    · rename_i name us hrest
      obtain ⟨es, opening, vs, rfl, rfl, hes⟩ := (reads_primary_function hrest).1 hreads
      obtain ⟨ts, hts, hpasses, -⟩ := (recognizes_bracketed h true .closingCall).sound hes
      refine ⟨_, ?_, .cons hrest (.cons (by rw [Cursor.rest_advance, hrest]; rfl) hpasses),
        startsWith_kinds_nil⟩
      cases hts with
      | nothing hd => exact .callNothing hd
      | items hd hitems => exact .call (.bracket hd hitems)
    · rename_i symbol opening us hrest
      obtain ⟨op, left, right, rfl, rfl, hes⟩ := (reads_primary_operator hrest).1 hreads
      obtain ⟨ts, hts, hpasses, -⟩ := (recognizes_bracketed h false .closingOperands).sound hes
      exact ⟨_, .prefixed (derives_bracket_iff.2 ⟨opening, ts, rfl, hts⟩),
        .cons hrest (.cons (by rw [Cursor.rest_advance, hrest]; rfl) hpasses), startsWith_kinds_nil⟩
    · rename_i opening us hrest
      obtain ⟨es, he, hes⟩ := (reads_primary_group hrest).1 hreads
      obtain ⟨ts, hts, hpasses, -⟩ := (recognizes_bracketed h false .closingGroup).sound hes
      have hbracket := derives_bracket_iff.2 ⟨opening, ts, rfl, hts⟩
      refine ⟨_, ?_, .cons hrest hpasses, startsWith_kinds_nil⟩
      rcases he with rfl | ⟨hlength, rfl⟩
      · exact .group hbracket
      · refine .tuple hbracket ?_
        have hpos := hts.length_pos
        omega
    · exact absurd hreads' not_reads_unexpected
  complete {e ts us c} hder hrest hend := by
    cases hder with
    | package =>
      exact ⟨_, (reads_primary_package hrest).2 ⟨rfl, rfl⟩, by rw [Cursor.rest_advance, hrest]; rfl⟩
    | @callNothing _ name opening closing hd =>
      have hclosing : ((c.advance 1).advance 1).rest = [⟨.closeParen, closing⟩] ++ us := by
        rw [Cursor.rest_advance, Cursor.rest_advance, hrest]
        rfl
      obtain ⟨c', hes, hc'⟩ := (recognizes_bracketed h true .closingCall).complete
        (.nothing hd rfl) hclosing hend
      exact ⟨c', (reads_primary_function hrest).2 ⟨_, _, _, rfl, rfl, hes⟩, hc'⟩
    | call hbracket =>
      obtain ⟨opening, vs, rfl, hitems⟩ := derives_bracket_iff.1 hbracket
      obtain ⟨c', hes, hc'⟩ := (recognizes_bracketed h true .closingCall).complete
        hitems.mayBeEmpty (c := (c.advance 1).advance 1) (by simp [hrest]) hend
      exact ⟨c', (reads_primary_function hrest).2 ⟨_, _, _, rfl, rfl, hes⟩, hc'⟩
    | prefixed hbracket =>
      obtain ⟨opening, vs, rfl, hitems⟩ := derives_bracket_iff.1 hbracket
      obtain ⟨c', hes, hc'⟩ := (recognizes_bracketed h false .closingOperands).complete hitems
        (c := (c.advance 1).advance 1) (by simp [hrest]) hend
      exact ⟨c', (reads_primary_operator hrest).2 ⟨_, _, _, rfl, rfl, hes⟩, hc'⟩
    | group hbracket =>
      obtain ⟨opening, vs, rfl, hitems⟩ := derives_bracket_iff.1 hbracket
      obtain ⟨c', hes, hc'⟩ := (recognizes_bracketed h false .closingGroup).complete hitems
        (c := c.advance 1) (by simp [hrest]) hend
      exact ⟨c', (reads_primary_group hrest).2 ⟨_, .inl rfl, hes⟩, hc'⟩
    | tuple hbracket hlength =>
      obtain ⟨opening, vs, rfl, hitems⟩ := derives_bracket_iff.1 hbracket
      obtain ⟨c', hes, hc'⟩ := (recognizes_bracketed h false .closingGroup).complete hitems
        (c := c.advance 1) (by simp [hrest]) hend
      exact ⟨c', (reads_primary_group hrest).2 ⟨_, .inr ⟨by omega, rfl⟩, hes⟩, hc'⟩

end

/-! ## Lists -/

section

variable {limit d room : Nat}

theorem recognizes_juxtaposed_of_inside {inner : Option (ParseM Expr)} (hroom : d + room = limit)
    (h : RecognizesInside limit d inner) :
    Recognizes (juxtaposed room inner) (fun e => Derives limit d (.list e)) listKinds :=
  recognizes_juxtaposed (recognizes_chain hroom (recognizes_term (recognizes_primary h)))

/-- The reader for lists inside a parenthesis, where `room` parentheses may be opened. -/
def inside : Nat → Option (ParseM Expr)
  | 0 => none
  | room + 1 => some (Parser.list room)

theorem list_eq (room : Nat) : Parser.list room = juxtaposed room (inside room) := by
  cases room <;> rfl

theorem recognizesInside (hroom : d + room = limit) :
    RecognizesInside limit d (inside room) := by
  induction room generalizing d with
  | zero =>
    have hd : limit ≤ d := by omega
    exact hd
  | succ room ih =>
    refine ⟨by omega, ?_⟩
    rw [list_eq]
    exact recognizes_juxtaposed_of_inside (by omega) (ih (by omega))

/-- The reader of lists recognizes lists. -/
theorem recognizes_list (hroom : d + room = limit) :
    Recognizes (Parser.list room) (fun e => Derives limit d (.list e)) listKinds := by
  rw [list_eq]
  exact recognizes_juxtaposed_of_inside hroom (recognizesInside hroom)

end

end ImportQuery.Expr
