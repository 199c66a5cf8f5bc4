import ImportQuery.Proofs.Expr.Running

/-!
# The rounds of a chain

A chain is read in rounds: an operator, a term behind it, and a test whether the tree with both of
them fits into the room that is left. The height that is tested is not found by a walk over the
tree. It is kept from round to round, and here it is shown to be the height of the tree in every
round, in runs that fail, too.

* `Rounds` : what has been read of a chain at the start of a round.
* `Rounds.run_eq` : a run comes through all its rounds.
* `exists_rounds` : a run ends in one of its rounds, in one of four ways.
* `height_tracked` : the heights that are tested are those of the trees.
-/

namespace ImportQuery.Expr

open ParseM ImportQuery.Expr.Parser
open Token (startsWith)

/-! ## Rounds -/

section

variable {room : Nat} {term : ParseM Expr} {start chain : Chain} {c c' d : Cursor} {op : SetOp}
  {right : Expr}

/-- At `c` an operator comes next, and a term behind it. The test is made at `d`, behind the
term. -/
structure Tests (term : ParseM Expr) (c : Cursor) (op : SetOp) (right : Expr) (d : Cursor) :
    Prop where
  operator : ∃ us, c.rest = ⟨.operator, op.symbol.toString⟩ :: us
  operand : Reads term (c.advance 1) right d

/-- From `start` at `c`, rounds with trees that fit lead to the chain at the second cursor. -/
inductive Rounds (room : Nat) (term : ParseM Expr) (start : Chain) (c : Cursor) :
    Chain → Cursor → Prop
  | zero : Rounds room term start c start c
  | succ {chain : Chain} {c' d : Cursor} {op : SetOp} {right : Expr}
    (h : Rounds room term start c chain c') (htest : Tests term c' op right d)
    (hfits : (chain.join op right).height ≤ room) :
    Rounds room term start c (chain.join op right) d

/-- How reading ends that has come to the start of a round with `chain`, at `c`. -/
inductive Ends (room : Nat) (term : ParseM Expr) (chain : Chain) (c : Cursor) :
    Except ParseError Chain × Cursor → Prop
  | complete (h : startsWith [.operator] c.rest = false) : Ends room term chain c (.ok chain, c)
  | improper {symbol : String} {us : List Token} (h : c.rest = ⟨.operator, symbol⟩ :: us)
    (hop : SetOp.ofSymbol? symbol = none) :
    Ends room term chain c (.error (.unexpectedToken .operator ⟨.operator, symbol⟩ c.index), c)
  | operand {op : SetOp} {us : List Token} {e : ParseError} {d : Cursor}
    (h : c.rest = ⟨.operator, op.symbol.toString⟩ :: us) (hfails : Fails term (c.advance 1) e d) :
    Ends room term chain c (.error e, d)
  | tooHigh {op : SetOp} {right : Expr} {d : Cursor} (htest : Tests term c op right d)
    (h : room < (chain.join op right).height) :
    Ends room term chain c (.error (.tooDeep d.index), d)

/-- What may come next behind a term: no operator, an operator with a text that none has, or a
proper one. -/
theorem operator_cases (ts : List Token) :
    startsWith [.operator] ts = false ∨
      (∃ symbol us, ts = ⟨.operator, symbol⟩ :: us ∧ SetOp.ofSymbol? symbol = none) ∨
      ∃ (op : SetOp) (us : List Token), ts = ⟨.operator, op.symbol.toString⟩ :: us := by
  cases hstarts : startsWith [.operator] ts with
  | false => exact .inl rfl
  | true =>
    obtain ⟨symbol, us, rfl⟩ := startsWith_singleton.1 hstarts
    cases hop : SetOp.ofSymbol? symbol with
    | none => exact .inr (.inl ⟨symbol, us, rfl, hop⟩)
    | some op => exact .inr (.inr ⟨op, us, by rw [SetOp.ofSymbol?_eq_some_iff.1 hop]⟩)

theorem run_chainFor_end {n : Nat} (h : startsWith [.operator] c.rest = false) :
    (chainFor room term n chain).run c = (.ok chain, c) := by
  cases n with
  | zero => rfl
  | succ n => exact (reads_chainFor_end h).2 ⟨rfl, rfl⟩

theorem run_chainFor_improper {n : Nat} {symbol : String} {us : List Token}
    (h : c.rest = ⟨.operator, symbol⟩ :: us) (hop : SetOp.ofSymbol? symbol = none) :
    (chainFor room term (n + 1) chain).run c =
      (.error (.unexpectedToken .operator ⟨.operator, symbol⟩ c.index), c) := by
  rw [chainFor, run_cursor_bind, h]
  dsimp only
  rw [hop]
  change (Except.error (c.unexpected .operator), c) = _
  rw [Cursor.unexpected, h]
  rfl

/-- One round, before its clock is known. -/
theorem run_chainFor_succ {n : Nat} {us : List Token}
    (h : c.rest = ⟨.operator, op.symbol.toString⟩ :: us) :
    (chainFor room term (n + 1) chain).run c = (do
      let right ← term
      if room < (chain.join op right).height then tooDeep
      else chainFor room term n (chain.join op right)).run (c.advance 1) := by
  rw [chainFor, run_cursor_bind, h]
  dsimp only
  rw [SetOp.ofSymbol?_eq_some_iff.2 rfl]
  rfl

/-- A term leaves fewer tokens than there were before its operator. -/
theorem Tests.rest_length_lt (htest : Tests term c op right d) :
    d.rest.length < c.rest.length := by
  obtain ⟨us, hrest⟩ := htest.operator
  have hle := htest.operand.rest_suffix.length_le
  rw [Cursor.rest_advance, List.length_drop] at hle
  rw [hrest, List.length_cons] at hle ⊢
  omega

/-- A clock that is not smaller than the number of tokens makes no difference. -/
theorem run_chainFor_eq {m n : Nat} (hm : c.rest.length ≤ m) (hn : c.rest.length ≤ n) :
    (chainFor room term m chain).run c = (chainFor room term n chain).run c := by
  induction m generalizing n c chain with
  | zero =>
    have hend : startsWith [.operator] c.rest = false := by
      rw [List.length_eq_zero_iff.1 (Nat.le_zero.1 hm)]
      rfl
    rw [run_chainFor_end hend, run_chainFor_end hend]
  | succ m ih =>
    obtain hend | ⟨symbol, us, hrest, hop⟩ | ⟨op, us, hrest⟩ := operator_cases c.rest
    · rw [run_chainFor_end hend, run_chainFor_end hend]
    all_goals obtain ⟨n, rfl⟩ : ∃ k, n = k + 1 := ⟨n - 1, by rw [hrest] at hn; simp at hn; omega⟩
    · rw [run_chainFor_improper hrest hop, run_chainFor_improper hrest hop]
    · rw [run_chainFor_succ hrest, run_chainFor_succ hrest, run_andThen, run_andThen]
      rcases hterm : term.run (c.advance 1) with ⟨e | right, d⟩
      · rfl
      · have hlt := (Tests.mk ⟨us, hrest⟩ hterm).rest_length_lt
        dsimp only
        split
        · rfl
        · exact ih (by omega) (by omega)

/-- A run that comes to a test which the tree passes is the run from the next round on. -/
theorem Tests.run_eq (htest : Tests term c op right d)
    (hfits : (chain.join op right).height ≤ room) :
    (chainFor room term c.rest.length chain).run c =
      (chainFor room term d.rest.length (chain.join op right)).run d := by
  obtain ⟨us, hrest⟩ := htest.operator
  have hlt := htest.rest_length_lt
  have hlength : c.rest.length = us.length + 1 := by rw [hrest, List.length_cons]
  have hoperand : term.run (c.advance 1) = (.ok right, d) := htest.operand
  rw [hlength, run_chainFor_succ hrest, run_andThen, hoperand]
  dsimp only
  rw [if_neg (Nat.not_lt.2 hfits)]
  exact run_chainFor_eq (by omega) (Nat.le_refl _)

/-- **A run comes through its rounds**: it goes on from each as it would if it started there. -/
theorem Rounds.run_eq (h : Rounds room term start c chain c') :
    (chainFor room term c.rest.length start).run c =
      (chainFor room term c'.rest.length chain).run c' := by
  induction h with
  | zero => rfl
  | succ _ htest hfits ih => rw [ih, htest.run_eq hfits]

/-- **A run ends in one of its rounds.** -/
theorem exists_rounds (start : Chain) (c : Cursor) :
    ∃ chain c', Rounds room term start c chain c' ∧
      Ends room term chain c' ((chainFor room term c.rest.length start).run c) := by
  have hfrom {chain : Chain} {c' : Cursor} (h : Rounds room term start c chain c') :
      ∃ chain c', Rounds room term start c chain c' ∧
        Ends room term chain c' ((chainFor room term c.rest.length start).run c) := by
    induction hn : c'.rest.length using Nat.strongRecOn generalizing chain c' with
    | ind n ih =>
      obtain hend | ⟨symbol, us, hrest, hop⟩ | ⟨op, us, hrest⟩ := operator_cases c'.rest
      · refine ⟨chain, c', h, ?_⟩
        rw [h.run_eq, run_chainFor_end hend]
        exact .complete hend
      · refine ⟨chain, c', h, ?_⟩
        rw [h.run_eq, hrest, List.length_cons, run_chainFor_improper hrest hop]
        exact .improper hrest hop
      · rcases hoperand : term.run (c'.advance 1) with ⟨e | right, d⟩
        · refine ⟨chain, c', h, ?_⟩
          rw [h.run_eq, hrest, List.length_cons, run_chainFor_succ hrest,
            run_andThen, hoperand]
          exact .operand hrest hoperand
        · have htest : Tests term c' op right d := ⟨⟨us, hrest⟩, hoperand⟩
          by_cases hfits : (chain.join op right).height ≤ room
          · have hlt := htest.rest_length_lt
            exact ih _ (by omega) (h.succ htest hfits) rfl
          · refine ⟨chain, c', h, ?_⟩
            rw [h.run_eq, hrest, List.length_cons, run_chainFor_succ hrest,
              run_andThen, hoperand]
            dsimp only
            rw [if_pos (Nat.not_le.1 hfits)]
            exact .tooHigh htest (Nat.not_le.1 hfits)
  exact hfrom .zero

/-! ## Heights -/

/-- The height that is kept is that of the tree. -/
theorem Rounds.height_eq (h : Rounds room term start c chain c')
    (hstart : start.height = start.tree.height) : chain.height = chain.tree.height := by
  induction h with
  | zero => exact hstart
  | succ _ _ _ ih => rw [Chain.join, height_binary, ih]

/-- Behind a round the tree fits into the room. -/
theorem Rounds.eq_or_height_le (h : Rounds room term start c chain c') :
    chain = start ∧ c' = c ∨ chain.height ≤ room := by
  cases h with
  | zero => exact .inl ⟨rfl, rfl⟩
  | succ _ _ hfits => exact .inr hfits

theorem Rounds.depth_eq (h : Rounds room term start c chain c')
    (hterm : ∀ {c c' : Cursor} {e : Expr}, Reads term c e c' → c'.depth = c.depth) :
    c'.depth = c.depth := by
  induction h with
  | zero => rfl
  | succ _ htest _ ih => exact (hterm htest.operand).trans ih

end

/-- A term leaves no parenthesis open. -/
theorem depth_eq_of_reads_term {room : Nat} {c c' : Cursor} {e : Expr}
    (h : Reads (Parser.term (inside room)) c e c') : c'.depth = c.depth := by
  have hinside := recognizesInside (Nat.zero_add room)
  obtain ⟨ts, -, hpasses, -⟩ := (recognizes_term (recognizes_primary hinside)).sound h
  exact hpasses.depth

/-- A chain is read if its first term is, and rounds lead from there to where no operator comes
next. -/
theorem reads_chain {room : Nat} {c c' : Cursor} {e : Expr} :
    Reads (Parser.chain room (inside room)) c e c' ↔ ∃ first d chain,
      Reads (Parser.term (inside room)) c first d ∧
      Rounds room (Parser.term (inside room)) (.ofTerm first) d chain c' ∧
      startsWith [.operator] c'.rest = false ∧ e = chain.tree := by
  constructor
  · intro hreads
    obtain ⟨first, d, hfirst, hreads⟩ := reads_bind.1 hreads
    obtain ⟨chain, c', hchain, hpure⟩ := reads_bind.1 (reads_cursor_bind.1 hreads)
    obtain ⟨rfl, rfl⟩ := reads_pure.1 hpure
    obtain ⟨chain', d', hrounds, hends⟩ := exists_rounds (.ofTerm first) d
    rw [show run _ d = _ from hchain] at hends
    cases hends with
    | complete hend => exact ⟨first, d, chain, hfirst, hrounds, hend, rfl⟩
  · rintro ⟨first, d, chain, hfirst, hrounds, hend, rfl⟩
    have hchain := (hrounds.run_eq).trans (run_chainFor_end hend)
    exact reads_bind.2 ⟨first, d, hfirst, reads_cursor_bind.2 (reads_bind.2
      ⟨chain, c', hchain, reads_pure.2 ⟨rfl, rfl⟩⟩)⟩

/-- How many more parentheses may be opened at a cursor. -/
def Cursor.room (c : Cursor) : Nat := maxDepth - c.depth

/-- **The height that a chain keeps is the height of its tree.** The loop that finds the height of a
tree finds one level more than the highest of the children has, in whatever order it takes the
nodes. When a chain is read, at any cursor, the height that is kept from round to round is the one
of the tree that has been read; the height that is tested is the one of the tree that is about to be
built, and the test is whether that tree fits below the parentheses that are open. So it does fit
when a chain with an operator has been read. -/
theorem height_tracked :
    ((∀ name, (package name).height = 1) ∧
      ∀ e : Expr, e.height = 1 + (e.children.map height).foldr max 0 ∧
        ∀ result, Climbs 0 [(e, 1)] result ↔ result = e.height) ∧
    ∀ (c d : Cursor) (first : Expr), Reads (Parser.term (inside c.room)) c first d →
      let term := Parser.term (inside c.room)
      let start := Chain.ofTerm first
      (∀ chain c', Rounds c.room term start d chain c' →
        (chainFor c.room term d.rest.length start).run d =
          (chainFor c.room term c'.rest.length chain).run c' ∧
        chain.height = chain.tree.height ∧
        ∀ op right d', Tests term c' op right d' →
          (chain.join op right).height = (binary op chain.tree right).height ∧
          (c.room < (chain.join op right).height ↔
            maxDepth < d'.depth + (binary op chain.tree right).height)) ∧
      (∃ chain c', Rounds c.room term start d chain c' ∧
        Ends c.room term chain c' ((chainFor c.room term d.rest.length start).run d)) ∧
      ∀ e c', Reads (Parser.chain c.room (inside c.room)) c e c' →
        e = first ∧ c' = d ∨ c'.depth + e.height ≤ maxDepth := by
  refine ⟨⟨height_package, fun e => ⟨?_, fun result => climbs_iff⟩⟩, ?_⟩
  · rw [height_eq, Nat.add_comm]
  intro c d first hfirst term start
  have hdepth {chain : Chain} {c' : Cursor} (h : Rounds c.room term start d chain c') :
      c'.depth = c.depth :=
    (h.depth_eq depth_eq_of_reads_term).trans (depth_eq_of_reads_term hfirst)
  refine ⟨fun chain c' hrounds => ?_, exists_rounds start d, fun e c' hreads => ?_⟩
  · have hheight : chain.height = chain.tree.height := hrounds.height_eq rfl
    refine ⟨hrounds.run_eq, hheight, fun op right d' htest => ?_⟩
    have hjoin : (chain.join op right).height = (binary op chain.tree right).height := by
      rw [Chain.join, height_binary, hheight]
    have hpos := (binary op chain.tree right).height_pos
    have hround : c'.depth = c.depth := hdepth hrounds
    have htested : d'.depth = c.depth := (depth_eq_of_reads_term htest.operand).trans hround
    refine ⟨hjoin, ?_⟩
    rw [hjoin, htested, Cursor.room]
    omega
  · obtain ⟨first', d', chain, hfirst', hrounds, -, rfl⟩ := reads_chain.1 hreads
    obtain ⟨rfl, rfl⟩ := hfirst.unique hfirst'
    obtain ⟨rfl, rfl⟩ | hfits := hrounds.eq_or_height_le
    · exact .inl ⟨rfl, rfl⟩
    · have hheight : chain.height = chain.tree.height := hrounds.height_eq rfl
      have hpos := chain.tree.height_pos
      rw [hheight, Cursor.room] at hfits
      rw [hdepth hrounds]
      exact .inr (by omega)

/-- Two packages with an operator between them. -/
theorem height_tracked_union :
    let c := Cursor.ofTokens [⟨.package, "a"⟩, ⟨.operator, "+"⟩, ⟨.package, "b"⟩]
    let e := binary .union (package "a") (package "b")
    ∃ d c', Reads (Parser.term (inside c.room)) c (package "a") d ∧
      Reads (Parser.chain c.room (inside c.room)) c e c' ∧
      (e = package "a" ∧ c' = d ∨ c'.depth + e.height ≤ maxDepth) := by
  intro c e
  have hfirst : Reads (Parser.term (inside c.room)) c (package "a") (c.advance 1) := rfl
  have htest : Tests (Parser.term (inside c.room)) (c.advance 1) .union (package "b")
      (c.advance 3) := ⟨⟨_, rfl⟩, rfl⟩
  have hfits : ((Chain.ofTerm (package "a")).join .union (package "b")).height ≤ c.room := by
    rw [Chain.join_ofTerm, Chain.ofTerm, height_binary, height_package, height_package]
    decide
  have hreads : Reads (Parser.chain c.room (inside c.room)) c e (c.advance 3) :=
    reads_chain.2 ⟨_, _, _, hfirst, Rounds.zero.succ htest hfits, rfl, rfl⟩
  exact ⟨_, _, hfirst, hreads, (height_tracked.2 c _ _ hfirst).2.2 e _ hreads⟩

end ImportQuery.Expr
