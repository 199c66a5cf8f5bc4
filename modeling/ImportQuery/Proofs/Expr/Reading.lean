import ImportQuery.Expr.Cursor

/-!
# What readers do

A reader started at a cursor either reads something or fails, and leaves a cursor behind. The two
cases are relations here, `Reads` and `Fails`, with one equivalence for each way to build a reader,
so that a run of a composed reader can be taken apart into runs of its parts and put together from
them.

* `reads_bind` and `fails_bind` : a sequence of readers.
* `run_many` : a repetition is one item and the repetition again, or nothing; the bound on the
  number of items does not show.
* `Cursor.Passes` : which tokens lie between two cursors.
-/

namespace ImportQuery.Expr

/-! ## Cursors -/

namespace Cursor

@[simp] theorem rest_advance (c : Cursor) (n : Nat) : (c.advance n).rest = c.rest.drop n := rfl

@[simp] theorem index_advance (c : Cursor) (n : Nat) : (c.advance n).index = c.index + n := rfl

/-- The tokens between two cursors, with no parenthesis left open. What has been reported in between
does not matter. -/
structure Passes (c : Cursor) (ts : List Token) (c' : Cursor) : Prop where
  rest : c.rest = ts ++ c'.rest
  index : c'.index = c.index + ts.length
  depth : c'.depth = c.depth

theorem Passes.nil (c : Cursor) : c.Passes [] c := ⟨rfl, rfl, rfl⟩

theorem Passes.append {c d c' : Cursor} {ts us : List Token} (h : c.Passes ts d)
    (h' : d.Passes us c') : c.Passes (ts ++ us) c' where
  rest := by rw [h.rest, h'.rest, List.append_assoc]
  index := by rw [h'.index, h.index, List.length_append, Nat.add_assoc]
  depth := h'.depth.trans h.depth

theorem passes_advance {c : Cursor} {ts us : List Token} (h : c.rest = ts ++ us) :
    c.Passes ts (c.advance ts.length) where
  rest := by rw [rest_advance, h, List.drop_left]
  index := rfl
  depth := rfl

theorem passes_advance_one {c : Cursor} {t : Token} {us : List Token} (h : c.rest = t :: us) :
    c.Passes [t] (c.advance 1) :=
  passes_advance h

theorem Passes.cons {c c' : Cursor} {t : Token} {ts us : List Token} (hrest : c.rest = t :: us)
    (h : (c.advance 1).Passes ts c') : c.Passes (t :: ts) c' :=
  (passes_advance_one hrest).append h

end Cursor

namespace ParseM

variable {α β : Type} {p : ParseM α} {f : α → ParseM β} {a a' : α} {c c' d : Cursor}
  {e e' : ParseError}

/-! ## Reading and failing -/

/-- The reader `p`, started at `c`, reads `a` and leaves `c'`. -/
def Reads (p : ParseM α) (c : Cursor) (a : α) (c' : Cursor) : Prop := p.run c = (.ok a, c')

/-- The reader `p`, started at `c`, fails with `e` and leaves `c'`. -/
def Fails (p : ParseM α) (c : Cursor) (e : ParseError) (c' : Cursor) : Prop :=
  p.run c = (.error e, c')

theorem Reads.unique (h : Reads p c a c') (h' : Reads p c a' d) : a = a' ∧ c' = d := by
  simpa using h.symm.trans h'

theorem reads_bind {b : β} :
    Reads (p >>= f) c b c' ↔ ∃ a d, Reads p c a d ∧ Reads (f a) d b c' := by
  simp only [Reads, run_andThen]
  rcases p.run c with ⟨_ | _, _⟩ <;> simp [and_assoc]

theorem fails_bind :
    Fails (p >>= f) c e c' ↔ Fails p c e c' ∨ ∃ a d, Reads p c a d ∧ Fails (f a) d e c' := by
  simp only [Reads, Fails, run_andThen]
  rcases p.run c with ⟨_ | _, _⟩ <;> simp [and_assoc]

@[simp] theorem reads_pure : Reads (pure a) c a' c' ↔ a' = a ∧ c' = c := by
  change (Except.ok a, c) = (Except.ok a', c') ↔ _
  simp [eq_comm]

@[simp] theorem reads_cursor : Reads cursor c d c' ↔ d = c ∧ c' = c := by
  change (Except.ok c, c) = (Except.ok d, c') ↔ _
  simp [eq_comm]

@[simp] theorem not_fails_cursor : ¬Fails cursor c e c' := by
  intro h
  cases h

@[simp] theorem reads_move {m : Move} {u : Unit} : Reads (move m) c u c' ↔ c' = m.apply c := by
  change (Except.ok (), m.apply c) = (Except.ok u, c') ↔ _
  simp [eq_comm]

@[simp] theorem not_reads_fail {h : e.place? = none} : ¬Reads (fail e h) c a c' := by
  intro h
  cases h

@[simp] theorem fails_fail {h : e.place? = none} :
    Fails (fail e h : ParseM α) c e' c' ↔ e' = e ∧ c' = c := by
  change (Except.error e, c) = (Except.error e', c') ↔ _
  simp [eq_comm]

@[simp] theorem not_reads_unexpected {expected : Expected} :
    ¬Reads (unexpected expected) c a c' := by
  intro h
  cases h

@[simp] theorem fails_unexpected_iff {expected : Expected} :
    Fails (unexpected expected : ParseM α) c e c' ↔ e = c.unexpected expected ∧ c' = c := by
  change (Except.error (c.unexpected expected), c) = (Except.error e, c') ↔ _
  simp [eq_comm]

/-- Looking at the cursor changes nothing. -/
theorem reads_cursor_bind {g : Cursor → ParseM α} :
    Reads (cursor >>= g) c a c' ↔ Reads (g c) c a c' := by
  simp [reads_bind, and_assoc]

theorem fails_cursor_bind {g : Cursor → ParseM α} :
    Fails (cursor >>= g) c e c' ↔ Fails (g c) c e c' := by
  simp [fails_bind, and_assoc]

/-! ## Single steps -/

@[simp] theorem reads_advance {n : Nat} {u : Unit} :
    Reads (advance n) c u c' ↔ c' = c.advance n := reads_move

theorem reads_advance_bind {n : Nat} :
    Reads (do advance n; p) c a c' ↔ Reads p (c.advance n) a c' := by
  simp [reads_bind]

@[simp] theorem reads_enter {u : Unit} :
    Reads enter c u c' ↔ c' = { c with depth := c.depth + 1 } := reads_move

@[simp] theorem reads_leave {u : Unit} :
    Reads leave c u c' ↔ c' = { c with depth := c.depth - 1 } := reads_move

@[simp] theorem reads_report {event : Event} {u : Unit} :
    Reads (report event) c u c' ↔ c' = { c with trace := c.trace ++ [event] } := reads_move

@[simp] theorem not_reads_tooDeep : ¬Reads tooDeep c a c' := by
  rw [tooDeep, reads_cursor_bind]
  exact not_reads_fail

@[simp] theorem fails_tooDeep :
    Fails (tooDeep : ParseM α) c e c' ↔ e = .tooDeep c.index ∧ c' = c := by
  rw [tooDeep, fails_cursor_bind, fails_fail]

theorem reads_expect {kind : Token.Kind} {expected : Expected} {u : Unit} :
    Reads (expect kind expected) c u c' ↔ c.sees kind = true ∧ c' = c.advance 1 := by
  rw [expect, reads_cursor_bind]
  split <;> simp [*]

/-! ## Repetition -/

variable {more : Cursor → Bool} {item : ParseM α}

theorem run_cursor_bind {g : Cursor → ParseM α} : (cursor >>= g).run c = (g c).run c :=
  rfl

/-- One round of a repetition, before its clock is known. -/
theorem run_manyFor_succ (n : Nat) :
    (manyFor more item (n + 1)).run c =
      if more c then (do let x ← item; return x :: (← manyFor more item n)).run c
      else (.ok [], c) := by
  rw [manyFor, run_cursor_bind]
  split <;> rfl

/-- What makes the number of tokens a sufficient clock: a repetition does not go on at the end of
the tokens, and its items are not empty. -/
structure Productive (more : Cursor → Bool) (item : ParseM α) : Prop where
  rest_ne_nil : ∀ {c : Cursor}, more c = true → c.rest ≠ []
  rest_length_lt : ∀ {c : Cursor} {a : α} {c' : Cursor},
    more c = true → Reads item c a c' → c'.rest.length < c.rest.length

/-- A clock that is not smaller than the number of tokens makes no difference. -/
theorem Productive.run_manyFor (h : Productive more item) (m n : Nat) (c : Cursor)
    (hm : c.rest.length ≤ m) (hn : c.rest.length ≤ n) :
    (manyFor more item m).run c = (manyFor more item n).run c := by
  induction m generalizing n c with
  | zero =>
    have hmore : ¬more c = true := fun hc =>
      h.rest_ne_nil hc (List.length_eq_zero_iff.1 (Nat.le_zero.1 hm))
    cases n with
    | zero => rfl
    | succ n =>
      rw [run_manyFor_succ, if_neg hmore]
      rfl
  | succ m ih =>
    cases n with
    | zero =>
      have hmore : ¬more c = true := fun hc =>
        h.rest_ne_nil hc (List.length_eq_zero_iff.1 (Nat.le_zero.1 hn))
      rw [run_manyFor_succ, if_neg hmore]
      rfl
    | succ n =>
      rw [run_manyFor_succ, run_manyFor_succ]
      split
      · rename_i hmore
        rw [run_andThen, run_andThen]
        rcases hitem : item.run c with ⟨e | a, d⟩
        · rfl
        · have hlt := h.rest_length_lt hmore hitem
          dsimp only
          rw [run_andThen, run_andThen, ih n d (by omega) (by omega)]
      · rfl

/-- A repetition is one item and the repetition again, or nothing. -/
theorem Productive.run_many (h : Productive more item) (c : Cursor) :
    (many more item).run c =
      if more c then (do let x ← item; return x :: (← many more item)).run c
      else (.ok [], c) := by
  have hmany : ∀ d, (many more item).run d = (manyFor more item d.rest.length).run d :=
    fun d => run_cursor_bind
  rw [hmany, h.run_manyFor _ (c.rest.length + 1) c (by omega) (by omega),
    run_manyFor_succ]
  split
  · rename_i hmore
    rw [run_andThen, run_andThen]
    rcases hitem : item.run c with ⟨e | a, d⟩
    · rfl
    · have hlt := h.rest_length_lt hmore hitem
      dsimp only
      rw [run_andThen, run_andThen, hmany,
        h.run_manyFor c.rest.length d.rest.length d (by omega) (by omega)]
  · rfl

/-- A repetition reads nothing where it does not go on. -/
theorem Productive.reads_many_nil (h : Productive more item) :
    Reads (many more item) c [] c' ↔ more c = false ∧ c' = c := by
  rw [Reads, h.run_many]
  split
  · rename_i hmore
    simp only [hmore, Bool.true_eq_false, false_and, iff_false]
    intro hreads
    obtain ⟨x, d, -, hrest⟩ := reads_bind.1 hreads
    obtain ⟨xs, d', -, hpure⟩ := reads_bind.1 hrest
    simpa using (reads_pure.1 hpure).1
  · rename_i hmore
    simp [hmore, eq_comm]

/-- The first item of a repetition is followed by a repetition. -/
theorem Productive.reads_many_cons (h : Productive more item) {as : List α} :
    Reads (many more item) c (a :: as) c' ↔
      more c = true ∧ ∃ d, Reads item c a d ∧ Reads (many more item) d as c' := by
  rw [Reads, h.run_many]
  split
  · rename_i hmore
    rw [← Reads]
    simp only [reads_bind, reads_pure, List.cons.injEq, hmore, true_and]
    constructor
    · rintro ⟨x, d, hx, xs, d', hxs, ⟨rfl, rfl⟩, rfl⟩
      exact ⟨d, hx, hxs⟩
    · rintro ⟨d, hx, hxs⟩
      exact ⟨a, d, hx, as, c', hxs, ⟨rfl, rfl⟩, rfl⟩
  · rename_i hmore
    simp [hmore]

/-- Items with a token of the kind `separator` between neighbours. -/
def separated (separator : Token.Kind) (item : ParseM α) : ParseM (List α) := do
  let first ← item
  let others ← many (·.sees separator) do
    advance 1
    item
  return first :: others

end ParseM

end ImportQuery.Expr
