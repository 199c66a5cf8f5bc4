import ImportQuery.Proofs.Expr.Brackets

/-!
# What readers leave behind

What holds of the cursor that a reader leaves, whether it reads or fails. A composed reader is
followed from part to part: what one part leaves is what the next one starts with.

* `Ensures` : what is true of everything that can come of a reader.
* `rest_suffix` : readers leave an end of the tokens that they were given.
* `Cursor.Leads` : which tokens lie between two cursors, parentheses aside.
* `fails_unexpected` : the errors that point at the next token.
* `fails_program` : what goes wrong in a program.
-/

namespace ImportQuery.Expr

open Token (startsWith)

/-! ## Between cursors -/

/-- The tokens between two cursors. Parentheses may be left open. -/
structure Cursor.Leads (c : Cursor) (ts : List Token) (c' : Cursor) : Prop where
  rest : c.rest = ts ++ c'.rest
  index : c'.index = c.index + ts.length

namespace Cursor

theorem Passes.leads {c c' : Cursor} {ts : List Token} (h : c.Passes ts c') : c.Leads ts c' :=
  ⟨h.rest, h.index⟩

theorem Leads.nil (c : Cursor) : c.Leads [] c := ⟨rfl, rfl⟩

theorem Leads.append {c d c' : Cursor} {ts us : List Token} (h : c.Leads ts d)
    (h' : d.Leads us c') : c.Leads (ts ++ us) c' where
  rest := by rw [h.rest, h'.rest, List.append_assoc]
  index := by rw [h'.index, h.index, List.length_append, Nat.add_assoc]

theorem leads_advance {c : Cursor} {ts us : List Token} (h : c.rest = ts ++ us) :
    c.Leads ts (c.advance ts.length) :=
  (passes_advance h).leads

end Cursor

theorem Move.rest_suffix (m : Move) (c : Cursor) : (m.apply c).rest <:+ c.rest := by
  cases m with
  | advance n => exact List.drop_suffix n c.rest
  | enter | leave | report => exact List.suffix_rfl

/-! ## Errors that point at a token -/

/-- The error points at the next token, or at the end if there is no token. -/
def ParseError.PointsAt (e : ParseError) (c : Cursor) : Prop :=
  match e with
  | unexpectedToken _ found i => i = c.index ∧ c.rest.head? = some found
  | unexpectedEnd _ i => i = c.index ∧ c.rest = []
  | misplacedAssignment i => i = c.index ∧ startsWith [.assign] c.rest = true
  | operandCount .. | nonFinalExpression _ | tooDeep _ => False

theorem Cursor.pointsAt_unexpected (c : Cursor) (expected : Expected) :
    (c.unexpected expected).PointsAt c := by
  unfold Cursor.unexpected
  split
  · rename_i t ts hrest
    split
    · rename_i hkind
      exact ⟨rfl, by simp [hrest, hkind]⟩
    · exact ⟨rfl, by simp [hrest]⟩
  · rename_i hrest
    exact ⟨rfl, hrest⟩

namespace ParseM

variable {α β : Type} {p q : ParseM α} {f : α → ParseM β} {c c' : Cursor} {e : ParseError}

theorem fails_advance_bind {n : Nat} :
    Fails (do advance n; p) c e c' ↔ Fails p (c.advance n) e c' := by
  rw [fails_bind]
  constructor
  · rintro (h | ⟨_, d, hreads, hfails⟩)
    · cases h
    · rwa [← reads_advance.1 hreads]
  · intro h
    exact .inr ⟨(), _, reads_advance.2 rfl, h⟩

@[simp] theorem not_fails_pure {a : α} : ¬Fails (pure a) c e c' := by
  intro h
  cases h

@[simp] theorem not_fails_move {m : Move} : ¬Fails (move m) c e c' := by
  intro h
  cases h

theorem fails_unexpected {expected : Expected} (h : Fails (unexpected expected : ParseM α) c e c') :
    e.PointsAt c ∧ c' = c := by
  obtain ⟨rfl, rfl⟩ := fails_unexpected_iff.1 h
  exact ⟨c'.pointsAt_unexpected expected, rfl⟩

theorem fails_expect {kind : Token.Kind} {expected : Expected} :
    Fails (expect kind expected) c e c' ↔
      c.sees kind = false ∧ Fails (unexpected expected : ParseM Unit) c e c' := by
  rw [expect, fails_cursor_bind]
  split
  · rename_i hsees
    simp only [hsees, Bool.true_eq_false, false_and, iff_false]
    exact not_fails_move
  · rename_i hsees
    simp [hsees]

/-- A repetition fails where one of its items does. -/
theorem Productive.fails_many {more : Cursor → Bool} {item : ParseM α}
    (h : Productive more item) :
    Fails (many more item) c e c' ↔ more c = true ∧ (Fails item c e c' ∨
      ∃ a d, Reads item c a d ∧ Fails (many more item) d e c') := by
  rw [Fails, h.run_many]
  split
  · rename_i hmore
    rw [← Fails, fails_bind]
    simp only [fails_bind, not_fails_pure, and_false, exists_false, or_false, hmore, true_and]
  · rename_i hmore
    simp [hmore]

/-! ## Everything that can come of a reader -/

/-- The cursor behind what the reader reads from `c` is as `Q` says, and the errors it fails with,
and the cursor then, are as `E` says. -/
structure Ensures (p : ParseM α) (c : Cursor) (Q : Cursor → Prop)
    (E : ParseError → Cursor → Prop) : Prop where
  reads : ∀ {a : α} {c' : Cursor}, Reads p c a c' → Q c'
  fails : ∀ {e : ParseError} {c' : Cursor}, Fails p c e c' → E e c'

section

variable {Q R : Cursor → Prop} {E : ParseError → Cursor → Prop}

theorem Ensures.bind (h : Ensures p c Q E)
    (hf : ∀ a d, Reads p c a d → Q d → Ensures (f a) d R E) : Ensures (p >>= f) c R E where
  reads hreads := by
    obtain ⟨a, d, ha, hb⟩ := reads_bind.1 hreads
    exact (hf a d ha (h.reads ha)).reads hb
  fails hfails := by
    rcases fails_bind.1 hfails with hfails | ⟨a, d, ha, hfails⟩
    · exact h.fails hfails
    · exact (hf a d ha (h.reads ha)).fails hfails

theorem ensures_pure {a : α} (h : Q c) : Ensures (pure a) c Q E where
  reads hreads := by
    obtain ⟨-, rfl⟩ := reads_pure.1 hreads
    exact h
  fails hfails := absurd hfails not_fails_pure

theorem ensures_fail {he : e.place? = none} (h : E e c) :
    Ensures (fail e he : ParseM α) c Q E where
  reads hreads := absurd hreads not_reads_fail
  fails hfails := by
    obtain ⟨rfl, rfl⟩ := fails_fail.1 hfails
    exact h

theorem ensures_cursor_bind {g : Cursor → ParseM α} (h : Ensures (g c) c Q E) :
    Ensures (cursor >>= g) c Q E where
  reads hreads := h.reads (reads_cursor_bind.1 hreads)
  fails hfails := h.fails (fails_cursor_bind.1 hfails)

theorem ensures_advance_bind {n : Nat} (h : Ensures p (c.advance n) Q E) :
    Ensures (do advance n; p) c Q E where
  reads hreads := h.reads (reads_advance_bind.1 hreads)
  fails hfails := h.fails (fails_advance_bind.1 hfails)

theorem ensures_move {m : Move} (h : Q (m.apply c)) : Ensures (move m) c Q E where
  reads hreads := by
    obtain rfl := reads_move.1 hreads
    exact h
  fails hfails := absurd hfails not_fails_move

/-- A repetition that does not go on. -/
theorem Productive.ensures_many_end {more : Cursor → Bool} {item : ParseM α}
    (h : Productive more item) (hmore : more c = false) (hc : Q c) :
    Ensures (many more item) c Q E where
  reads {as c'} hreads := by
    cases as with
    | nil =>
      obtain ⟨-, rfl⟩ := h.reads_many_nil.1 hreads
      exact hc
    | cons a as =>
      rw [(h.reads_many_cons.1 hreads).1] at hmore
      cases hmore
  fails hfails := by
    rw [(h.fails_many.1 hfails).1] at hmore
    cases hmore

/-- A repetition that goes on: an item, and the repetition behind it. -/
theorem Productive.ensures_many_more {more : Cursor → Bool} {item : ParseM α}
    (h : Productive more item) (hmore : more c = true) (hitem : Ensures item c Q E)
    (hrest : ∀ a d, Reads item c a d → Q d → Ensures (many more item) d R E) :
    Ensures (many more item) c R E where
  reads {as c'} hreads := by
    cases as with
    | nil =>
      rw [(h.reads_many_nil.1 hreads).1] at hmore
      cases hmore
    | cons a as =>
      obtain ⟨-, d, ha, has⟩ := h.reads_many_cons.1 hreads
      exact (hrest a d ha (hitem.reads ha)).reads has
  fails hfails := by
    obtain ⟨-, hfails | ⟨a, d, ha, hfails⟩⟩ := h.fails_many.1 hfails
    · exact hitem.fails hfails
    · exact (hrest a d ha (hitem.reads ha)).fails hfails

end

/-! ## Readers leave an end of the tokens -/

/-- What a reader leaves is an end of the tokens that came next, whatever comes of it. -/
theorem rest_suffix (p : ParseM α) (c : Cursor) : (p.run c).2.rest <:+ c.rest := by
  induction p generalizing c with
  | found | cursor | unexpected | fail => exact List.suffix_rfl
  | move m => exact m.rest_suffix c
  | andThen p f ihp ihf =>
    have hp := ihp c
    change ((p >>= f).run c).2.rest <:+ c.rest
    rw [run_andThen]
    rcases hrun : p.run c with ⟨e | a, d⟩
    · rwa [hrun] at hp
    · rw [hrun] at hp
      exact (ihf a d).trans hp

theorem Reads.rest_suffix {a : α} (h : Reads p c a c') : c'.rest <:+ c.rest := by
  simpa [show p.run c = _ from h] using ParseM.rest_suffix p c

theorem Fails.rest_suffix (h : Fails p c e c') : c'.rest <:+ c.rest := by
  simpa [show p.run c = _ from h] using ParseM.rest_suffix p c

end ParseM

/-! ## Programs -/

open ParseM ImportQuery.Expr.Parser

/-- What goes wrong in a program is one of its statements, or does not end them, or it is no matter
of a single token. -/
theorem fails_program {c c' : Cursor} {e : ParseError} (h : Fails Parser.program c e c') :
    Fails (statements (maxDepth - c.depth)) c e c' ∨
      (∃ ss, Reads (statements (maxDepth - c.depth)) c ss c' ∧ c'.rest ≠ [] ∧ e.PointsAt c') ∨
      e.place? = none := by
  rw [Parser.program, fails_cursor_bind] at h
  dsimp only at h
  split at h
  · exact absurd h not_fails_pure
  obtain h | ⟨ss, d, hss, h⟩ := fails_bind.1 h
  · exact .inl h
  rw [fails_cursor_bind] at h
  split at h
  · rename_i hrest
    obtain h | ⟨_, _, hunexpected, -⟩ := fails_bind.1 h
    · obtain ⟨hpoints, rfl⟩ := fails_unexpected h
      exact .inr (.inl ⟨ss, hss, hrest, hpoints⟩)
    · exact absurd hunexpected not_reads_unexpected
  · split at h
    · obtain ⟨rfl, -⟩ := fails_fail.1 h
      exact .inr (.inr rfl)
    · obtain h | ⟨_, _, -, h⟩ := fails_bind.1 h
      · exact absurd h not_fails_move
      · split at h <;> exact absurd h not_fails_pure

end ImportQuery.Expr
